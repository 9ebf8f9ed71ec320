import AdviceMigration.Advice.Folding
import AdviceMigration.Advice.Locals

/-!
# Migrating one advice class

A class is advice when it has a method with the enter marker or one with the exit marker. Its plan says what the two methods hand over and which writes they have to return; carrying it out changes the two methods and adds the container class they need.
-/

namespace AdviceMigration.Advice

open AdviceMigration.Source AdviceMigration.Scope

/-! ### Advice methods -/

/-- A method with an advice marker: the position and the written name of the marker, and what the parameters are bound to. -/
structure AdviceMethod where
  id : NodeId
  name : String
  marker : Nat
  markerName : String
  bindings : List Binding

namespace AdviceMethod

def writable (advice : AdviceMethod) (kind : Binding → Bool) : List Binding :=
  advice.bindings.filter fun binding => binding.isWritable && kind binding

def hasEntered (advice : AdviceMethod) : Bool := advice.bindings.any (·.isEntered)

/-- The methods with a marker, each with the position of the marker. -/
def marked (decl : TypeDecl) (scope : TypeScope) (marker : String) : List (Method × Nat) :=
  decl.methods.filterMap fun method =>
    (findAnnot? method.annotations scope marker).map fun index => (method, index)

/-- The method with a marker, if the class has one; an error if it has several. -/
def find? (decl : TypeDecl) (scope : TypeScope) (marker shortName : String) :
    Except MigrateError (Option AdviceMethod) :=
  match marked decl scope marker with
  | [] => .ok none
  | [(method, index)] => do
    let bindings ← Binding.ofMethod scope method
    let markerName := (method.annotations[index]?.map (·.name)).getD ""
    return some ⟨method.id, method.name, index, markerName, bindings⟩
  | _ => .error (.duplicateAdviceMethod decl.name shortName)

def bound? (advice : AdviceMethod) (decl : TypeDecl) : Option BoundMethod :=
  (decl.method? advice.id).map fun method => ⟨method, advice.bindings⟩

/-- Whether the method already says where returned values are written to. -/
def isMigrated (advice : AdviceMethod) (decl : TypeDecl) (scope : TypeScope) : Bool :=
  match decl.method? advice.id with
  | none => false
  | some method =>
    method.annotations.any fun annot =>
      match scope.resolve? annot.name with
      | some qualified => Framework.isAssignReturned qualified
      | none => false

end AdviceMethod

/-! ### Plans -/

structure Plan where
  enter : Option AdviceMethod
  exit : Option AdviceMethod
  locals : AdviceLocals

namespace Plan

/-- What an exit method must satisfy on its own: one write to the return value at most, and an enter method if it wants the value of one. -/
def checkExit (enter : Option AdviceMethod) (exit : AdviceMethod) : Except MigrateError Unit :=
  if 1 < (exit.writable (·.isReturned)).length then .error (.multipleWritableReturns exit.name)
  else if enter.isNone && exit.hasEntered then .error (.enterBindingWithoutEnterMethod exit.name)
  else .ok ()

/-- The plan for a class, given the scope inside its body; nothing if the class is not advice or has been migrated already. -/
def create (decl : TypeDecl) (scope : TypeScope) : Except MigrateError (Option Plan) :=
  if decl.kind != .class then .ok none
  else do
    let enter ← AdviceMethod.find? decl scope Framework.onMethodEnter "OnMethodEnter"
    let exit ← AdviceMethod.find? decl scope Framework.onMethodExit "OnMethodExit"
    let advice := enter.toList ++ exit.toList
    if advice.isEmpty || advice.any (·.isMigrated decl scope) then return none
    else
      match exit with
      | some exit => checkExit enter exit
      | none => .ok ()
      let locals ← AdviceLocals.create (enter.bind (·.bound? decl)) (exit.bind (·.bound? decl))
      return some ⟨enter, exit, locals⟩

/-- What the enter method writes, fields first. -/
def enterWrites (plan : Plan) : List Binding :=
  match plan.enter with
  | some enter => enter.writable (·.isField) ++ enter.writable (·.isArgument)
  | none => []

/-- What the exit method writes, the return value first. -/
def exitWrites (plan : Plan) : List Binding :=
  match plan.exit with
  | some exit => exit.writable (·.isReturned) ++ exit.writable (·.isField)
  | none => []

def hasChanges (plan : Plan) : Bool :=
  !plan.enterWrites.isEmpty || !plan.exitWrites.isEmpty || plan.locals.hasShared

end Plan

/-! ### Carrying out a plan -/

/-- What a migration keeps track of: the next node identity, the imports needed so far and the qualified names of the classes changed so far. -/
structure Session where
  nextId : NodeId
  imports : RequiredImports
  classes : List String

/-- A step of a migration. An error ends it and leaves nothing behind. -/
abbrev Migrating := StateT Session (Except MigrateError)

namespace Migrating

def drawing {α : Type} (make : Fresh α) : Migrating α := fun session =>
  let (value, next) := make.run session.nextId
  .ok (value, { session with nextId := next })

/-- Changes a method by an edit that draws identities and may fail. -/
def editing {α : Type} (edit : Fresh (Method × Except MigrateError α)) : Migrating (Method × α) := do
  let (method, result) ← drawing edit
  match result with
  | .ok value => return (method, value)
  | .error error => throw error

def requireImport (path : String) : Migrating Unit :=
  modify fun session => { session with imports := session.imports.add path }

end Migrating

def WriteTarget.ofRole? : BindingRole → Option WriteTarget
  | .argument index => some (.argument index)
  | .field name => some (.field name)
  | .returned => some .returned
  | _ => none

def ValueToReturn.ofBinding? (binding : Binding) : Option ValueToReturn :=
  (WriteTarget.ofRole? binding.role).map fun target =>
    ⟨binding.param, binding.name, binding.type, some target⟩

/-- Drops the element that says a binding is writable. -/
def dropReadOnly (method : Method) (binding : Binding) : Method :=
  { method with
    params := method.params.map fun param =>
      if param.id == binding.param then
        { param with
          annotations := param.annotations.modify binding.annotIndex fun annot =>
            annot.without "readOnly" }
      else param }

/-- Annotates a method for the values, makes it return them and folds the assignments that became redundant. -/
def finishMethod (method : Method) (marker : Nat) (values : List ValueToReturn) :
    Migrating Method :=
  if values.isEmpty then pure method
  else do
    modify fun session => { session with imports := requireImports session.imports values }
    let (method, _) ← Migrating.editing (packReturns (annotate method values marker) values)
    return (foldReturns method (values.map (·.name))).1

/-- The annotation for a new exit parameter, spelled like the exit marker. -/
def enterAnnot (markerName : String) : Migrating Annot :=
  let marker := "OnMethodExit".toList
  if marker.isSuffixOf markerName.toList then
    let stem := markerName.toList.take (markerName.length - marker.length)
    if stem.isEmpty then do
      Migrating.requireImport Framework.enterValue
      return .marker "Enter"
    else pure (.marker (String.ofList stem ++ "Enter"))
  else do
    Migrating.requireImport Framework.advice
    return .marker "Advice.Enter"

namespace Plan

/-- The class with the container directly before the enter method, or last without one. The enter method gets an empty line in front, and so does a container that is not the first member. -/
def insertContainer (plan : Plan) (decl : TypeDecl) : Migrating TypeDecl :=
  if plan.locals.needsContainer then do
    let container ← Migrating.drawing plan.locals.container
    let index := (plan.enter.bind fun enter => decl.memberIndex? enter.id).getD decl.members.length
    let container := { container with
      layout := { container.layout with blankLineBefore := decide (0 < index) } }
    let members := decl.members.modify index fun member =>
      match member with
      | .method method =>
        .method { method with layout := { method.layout with blankLineBefore := true } }
      | other => other
    return { decl with members := members.insertIdx index (.type container) }
  else pure decl

/-- The enter method after the migration, and the values it returns. -/
def migrateEnter (plan : Plan) (enter : AdviceMethod) (method : Method) :
    Migrating (Method × List ValueToReturn) := do
  let (method, carrier) ←
    if plan.locals.isNonempty then Migrating.editing (plan.locals.transformEnter method)
    else pure (method, none)
  let values := carrier.toList ++ plan.enterWrites.filterMap ValueToReturn.ofBinding?
  let method ← finishMethod (plan.enterWrites.foldl dropReadOnly method) enter.marker values
  return ((values.map (·.decl)).foldl prune method, values)

/-- The annotation of the parameter that the exit method receives the carrier in. -/
def exitAnnot (plan : Plan) (exit : AdviceMethod) : Migrating Annot :=
  match plan.locals.exitEnter with
  | some enter => pure enter.annot
  | none => enterAnnot exit.markerName

/-- The declarations that were added to the exit method, in the order in which they can become unused. -/
def addedDecls (change : Option AdviceLocals.ExitChange) : List NodeId :=
  match change with
  | some ⟨param, unpacked⟩ => unpacked.toList ++ [param]
  | none => []

def migrateExit (plan : Plan) (exit : AdviceMethod) (method : Method) (enterPacked : Bool) :
    Migrating Method := do
  let (method, change) ←
    if plan.locals.isNonempty then do
      let annot ← plan.exitAnnot exit
      Migrating.editing (plan.locals.transformExit method enterPacked annot)
    else pure (method, none)
  let values := plan.exitWrites.filterMap ValueToReturn.ofBinding?
  let method ← finishMethod (plan.exitWrites.foldl dropReadOnly method) exit.marker values
  return (addedDecls change ++ values.map (·.decl)).foldl prune method

/-- The class with its enter method migrated, and the values this method returns. -/
def applyEnter (plan : Plan) (decl : TypeDecl) : Migrating (TypeDecl × List ValueToReturn) :=
  match plan.enter with
  | none => pure (decl, [])
  | some enter =>
    match decl.method? enter.id with
    | none => pure (decl, [])
    | some method => do
      let (method, values) ← plan.migrateEnter enter method
      return (decl.replaceMethod method, values)

def applyExit (plan : Plan) (decl : TypeDecl) (enterPacked : Bool) : Migrating TypeDecl :=
  match plan.exit with
  | none => pure decl
  | some exit =>
    match decl.method? exit.id with
    | none => pure decl
    | some method => do
      return decl.replaceMethod (← plan.migrateExit exit method enterPacked)

/-- The class after the migration; nothing if there is nothing to change. -/
def transform? (plan : Plan) (decl : TypeDecl) : Migrating (Option TypeDecl) :=
  if plan.hasChanges then do
    let decl ← plan.insertContainer decl
    let (decl, values) ← plan.applyEnter decl
    return some (← plan.applyExit decl (arePacked values))
  else pure none

end Plan

end AdviceMigration.Advice
