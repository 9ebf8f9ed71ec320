import AdviceMigration.Advice.Edit
import AdviceMigration.Advice.Framework
import AdviceMigration.Source.Completion

/-!
# Values written back

An advice method that writes to an argument, a field or the return value of the instrumented method returns the new value, and an annotation says where it goes. One value is returned as it is. Several values are returned as `new Object[]` with one slot each, and each annotation names its slot.
-/

namespace AdviceMigration.Advice

open AdviceMigration.Source AdviceMigration.Scope

inductive WriteTarget where
  | argument (index : Int)
  /-- A field of the instrumented instance, named as in its binding. -/
  | field (name : ElementValue)
  | returned

/-- A declaration whose final value a method has to return. A value without a target is only handed from the enter method to the exit method. -/
structure ValueToReturn where
  decl : NodeId
  name : String
  type : TypeRef
  target : Option WriteTarget

/-! ### Annotations -/

/-- The element that names the slot of a packed value. -/
def slotPair (slot : Nat) : ElementPair := ⟨"index", .expr (.ofInt slot)⟩

/-- An annotation with a main value, and a slot when the value is packed. -/
def slotted (name : String) (value : ElementValue) : Option Nat → Annot
  | none => .single name value
  | some slot => .pairs name [⟨"value", value⟩, slotPair slot]

namespace WriteTarget

/-- The annotation that asks for a value to be written to a target. -/
def annot : WriteTarget → Option Nat → Annot
  | argument index, slot => slotted Framework.toArgumentName (.expr (.ofInt index)) slot
  | field name, slot => slotted Framework.toFieldName name slot
  | returned, none => .marker Framework.toReturnedName
  | returned, some slot => .pairs Framework.toReturnedName [slotPair slot]

/-- The annotation that collects the annotations for one kind of target. -/
def wrapper? : WriteTarget → Option String
  | argument _ => some Framework.toArgumentsWrapper
  | field _ => some Framework.toFieldsWrapper
  | returned => none

def imports : WriteTarget → List String
  | argument _ => [Framework.assignReturned, Framework.toArgument]
  | field _ => [Framework.assignReturned, Framework.toField]
  | returned => [Framework.assignReturned]

end WriteTarget

/-- Adds an item to the value of a wrapper. A single value becomes the first item; anything else but a list is replaced. -/
def appendItem (item : Annot) : Annot → Annot
  | .single name (.array items) => .single name (.array (items ++ [.annot item]))
  | .single name first => .single name (.array [first, .annot item])
  | .marker name => .single name (.array [.annot item])
  | .pairs name _ => .single name (.array [.annot item])

/-- Annotations of a method and the position at which new ones go in, right before the advice marker. -/
structure Annotating where
  annots : List Annot
  marker : Nat

namespace Annotating

/-- Puts an annotation in front of the marker. -/
def insert (state : Annotating) (annot : Annot) : Annotating :=
  ⟨state.annots.insertIdx state.marker annot, state.marker + 1⟩

/-- Adds an item to the first wrapper of the given name, or to a new one. -/
def insertItem (state : Annotating) (wrapper : String) (item : Annot) : Annotating :=
  match state.annots.findIdx? fun annot => annot.name == wrapper with
  | some index => { state with annots := state.annots.modify index (appendItem item) }
  | none => state.insert (.single wrapper (.array [.annot item]))

def add (state : Annotating) (target : WriteTarget) (slot : Option Nat) : Annotating :=
  match target.wrapper? with
  | some wrapper => state.insertItem wrapper (target.annot slot)
  | none => state.insert (target.annot slot)

/-- Adds the annotations for values with their slots, as far as they have targets. -/
def addAll (packed : Bool) : Annotating → List (ValueToReturn × Nat) → Annotating
  | state, [] => state
  | state, (value, slot) :: rest =>
    match value.target with
    | none => addAll packed state rest
    | some target => addAll packed (state.add target (if packed then some slot else none)) rest

end Annotating

def arePacked (values : List ValueToReturn) : Bool := 1 < values.length

/-- The method with annotations for the values in front of the one at position `marker`. -/
def annotate (method : Method) (values : List ValueToReturn) (marker : Nat) : Method :=
  let start : Annotating := ⟨method.annotations, min marker method.annotations.length⟩
  { method with annotations := (start.addAll (arePacked values) values.zipIdx).annots }

def requireImports (imports : RequiredImports) (values : List ValueToReturn) : RequiredImports :=
  ((values.filterMap (·.target)).flatMap (·.imports)).foldl RequiredImports.add imports

/-! ### Returns -/

def nameSlots : List ValueToReturn → Fresh (List Expr)
  | [] => pure []
  | value :: rest => do
    let slot ← Expr.fresh value.name
    return slot :: (← nameSlots rest)

def objectType : TypeRef := .simple "Object"

/-- What every `return` gives back: the value, or an array of the values. -/
def returnTemplate : List ValueToReturn → Fresh (Option Expr)
  | [] => pure none
  | [value] => do
    return some (← Expr.fresh value.name)
  | values => do
    return some (.newArray objectType [none] (some (← nameSlots values)))

def packedType : List ValueToReturn → TypeRef
  | [value] => value.type
  | _ => .array objectType

/-- The body with a `return` at its end, if control can get there. -/
def closeBody (body : Block) : Block :=
  if body.canComplete then { body with stmts := body.stmts ++ [.ofKind (.ret none)] } else body

def returnAt? (body : Block) (path : StmtPath) : Option (Option Expr) :=
  match body.stmtAt? path with
  | some ⟨_, _, .ret value⟩ => some value
  | _ => none

/-- The body with another value for the statement at a path, which becomes a `return`. -/
def setReturn (body : Block) (path : StmtPath) (value : Option Expr) : Block :=
  (body.updateStmt? path fun stmt => { stmt with kind := .ret value }).getD body

/-- Makes the `return` at a path give back a copy of the template. A call, assignment or creation it gave back before stays as a statement in front of it. The flag is false if there is no room for one: the `return` is not directly inside a block. -/
def packReturn (template : Expr) (body : Block) (path : StmtPath) : Fresh (Block × Bool) :=
  match returnAt? body path with
  | none => pure (body, true)
  | some previous => do
    let body := setReturn body path (some (← template.freshCopy))
    match previous.filter (·.isStatement) with
    | none => return (body, true)
    | some previous =>
      match insertBefore? body path (.ofKind (.expr previous)) with
      | some body => return (body, true)
      | none => return (body, false)

/-- Packs the returns at the given paths in turn, up to the first that cannot be packed. -/
def packReturnsAt (template : Expr) : Block → List StmtPath → Fresh (Block × Bool)
  | body, [] => pure (body, true)
  | body, path :: rest => do
    match ← packReturn template body path with
    | (body, true) => packReturnsAt template body rest
    | (body, false) => return (body, false)

/-- Makes every `return` of the method's own scope give back the values, the end of the body included. After an error the method is as far as the work got, last return first. -/
def packReturns (method : Method) (values : List ValueToReturn) :
    Fresh (Method × Except MigrateError Unit) := do
  match ← returnTemplate values with
  | none => return (method, .ok ())
  | some template =>
    match method.body with
    | none => return (method, .error (.missingBody method.name))
    | some body =>
      let body := closeBody body
      match ← packReturnsAt template body body.returnPaths.reverse with
      | (body, true) =>
        return ({ method with body := some body, returnType := some (packedType values) }, .ok ())
      | (body, false) =>
        return ({ method with body := some body },
          .error (.unsupportedReturnPosition method.name))

end AdviceMigration.Advice
