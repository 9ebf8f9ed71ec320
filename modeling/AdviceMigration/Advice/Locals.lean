import AdviceMigration.Advice.Binding
import AdviceMigration.Advice.FreshName
import AdviceMigration.Advice.WriteBack

/-!
# Values handed from enter to exit

The enter method hands values to the exit method: those that parameters of both share under a key, and the one that it returns. They travel as one carrier, which the enter method returns. A single value is its own carrier. Several travel in an object of a container class with a public field for each.
-/

namespace AdviceMigration.Advice

open AdviceMigration.Source AdviceMigration.Scope

def containerClass : String := "AdviceLocals"

def containerVar : String := "locals"

/-- The preferred name of the parameter that receives several values of the enter method. -/
def packedParam : String := "enterResult"

/-- A parameter that takes part in the hand-over. -/
structure HandedParam where
  param : NodeId
  name : String
  type : TypeRef

def HandedParam.ofBinding (binding : Binding) : HandedParam :=
  ⟨binding.param, binding.name, binding.type⟩

/-- The exit parameter that receives what the enter method returned, with the annotation that says so. -/
structure EnterParam where
  value : HandedParam
  annot : Annot

/-- What the enter method hands to the exit method: the shared parameters of either by key, in order, and the exit parameter for the returned value. -/
structure AdviceLocals where
  enter : List (String × HandedParam)
  exit : List (String × HandedParam)
  exitEnter : Option EnterParam

/-- An advice method with what its parameters are bound to. -/
structure BoundMethod where
  method : Method
  bindings : List Binding

namespace BoundMethod

def shared (bound : BoundMethod) : List (String × HandedParam) :=
  bound.bindings.filterMap fun binding =>
    binding.key?.map fun key => (key, HandedParam.ofBinding binding)

/-- The first key that occurs again after one of the keys `seen`. -/
def repeatedKey? : (seen keys : List String) → Option String
  | _, [] => none
  | seen, key :: rest => if seen.contains key then some key else repeatedKey? (key :: seen) rest

/-- The shared parameters, unless a key is bound twice. -/
def sharedOnce (bound : BoundMethod) : Except MigrateError (List (String × HandedParam)) :=
  match repeatedKey? [] (bound.shared.map (·.1)) with
  | some key => .error (.duplicateLocal bound.method.name key)
  | none => .ok bound.shared

def enterParam? (bound : BoundMethod) (binding : Binding) : Option EnterParam := do
  let param ← bound.method.param? binding.param
  let annot ← param.annotations[binding.annotIndex]?
  return ⟨.ofBinding binding, annot⟩

/-- The parameter that receives what the enter method returned, unless there are several. -/
def entered (bound : BoundMethod) : Except MigrateError (Option EnterParam) :=
  match bound.bindings.filter (·.isEntered) with
  | [] => .ok none
  | [binding] => .ok (bound.enterParam? binding)
  | _ => .error (.duplicateEnterBinding bound.method.name)

end BoundMethod

namespace AdviceLocals

def sortedKeys (params : List (String × HandedParam)) : List String :=
  (params.map (·.1)).mergeSort fun left right => !(right < left)

/-- What the two methods hand over; either may be missing. Both must share the same keys. -/
def create (enter exit : Option BoundMethod) : Except MigrateError AdviceLocals := do
  let enterShared ← match enter with
    | some bound => bound.sharedOnce
    | none => .ok []
  let exitEnter ← match exit with
    | some bound => bound.entered
    | none => .ok none
  let exitShared ← match exit with
    | some bound => bound.sharedOnce
    | none => .ok []
  if enterShared.length == exitShared.length &&
      enterShared.all fun entry => exitShared.any fun other => other.1 == entry.1 then
    .ok ⟨enterShared, exitShared, exitEnter⟩
  else .error (.mismatchedLocals (sortedKeys enterShared) (sortedKeys exitShared))

def hasShared (locals : AdviceLocals) : Bool := !locals.enter.isEmpty

def isNonempty (locals : AdviceLocals) : Bool := locals.hasShared || locals.exitEnter.isSome

/-- Whether more than one value is handed over, so that a container is needed. -/
def needsContainer (locals : AdviceLocals) : Bool :=
  1 < locals.enter.length + (if locals.exitEnter.isSome then 1 else 0)

/-- The first of some shared parameters, or else the one for the value that enter returned. -/
def firstOf? (locals : AdviceLocals) (shared : List (String × HandedParam)) : Option HandedParam :=
  match shared with
  | entry :: _ => some entry.2
  | [] => locals.exitEnter.map (·.value)

def carrierType? (locals : AdviceLocals) : Option TypeRef :=
  if locals.needsContainer then some (.simple containerClass)
  else (locals.firstOf? locals.enter).map (·.type)

/-- The field of the container that stands for a parameter of either method. A shared value is named after its enter parameter. -/
def fieldName? (locals : AdviceLocals) (param : NodeId) : Option String :=
  match locals.exitEnter.filter fun enter => enter.value.param == param with
  | some enter => some enter.value.name
  | none =>
    match locals.enter.find? fun entry => entry.2.param == param with
    | some entry => some entry.2.name
    | none => do
      let (key, _) ← locals.exit.find? fun entry => entry.2.param == param
      let entry ← locals.enter.find? fun entry => entry.1 == key
      return entry.2.name

def fieldsFor : List HandedParam → Fresh (List Member)
  | [] => pure []
  | param :: rest => do
    let field := FieldDecl.simple (← Fresh.id) param.type param.name
    return .field field :: (← fieldsFor rest)

/-- The container class: a field for the value that enter returned first, then one for each shared value. -/
def container (locals : AdviceLocals) : Fresh TypeDecl := do
  let decl := TypeDecl.emptyClass (← Fresh.id) containerClass [.public, .static]
  let fields ← fieldsFor ((locals.exitEnter.map (·.value)).toList ++ locals.enter.map (·.2))
  return { decl with members := fields }

/-- What stands for a parameter once the carrier is in a variable. -/
def access (locals : AdviceLocals) (var : String) (param : NodeId) : Fresh Expr := do
  let carrier ← Expr.fresh var
  match locals.fieldName? param with
  | some field => return if locals.needsContainer then .field carrier field else carrier
  | none => return carrier

/-- Reads parameters from the carrier instead, in every place that refers to them. -/
def readFromCarrier (locals : AdviceLocals) (var : String) : Method → List NodeId → Fresh Method
  | method, [] => pure method
  | method, param :: rest => do
    let (method, _) ← replaceReferences method param (← locals.access var param)
    readFromCarrier locals var method rest

def eraseParams (method : Method) (params : List NodeId) : Method :=
  params.foldl Method.eraseParam method

def declareFirst (method : Method) (decl : LocalVar) : Method :=
  { method with
    body := method.body.map fun body =>
      { body with stmts := .ofKind (.localVar decl) :: body.stmts } }

/-! ### The enter method -/

/-- The preferred name and the type of the carrier variable of the enter method. -/
def enterCarrier? (locals : AdviceLocals) : Option (String × TypeRef) :=
  if locals.needsContainer then some (containerVar, .simple containerClass)
  else (locals.firstOf? locals.enter).map fun param => (param.name, param.type)

def initialValue (locals : AdviceLocals) (type : TypeRef) : Expr :=
  if locals.needsContainer then .new none type [] none
  else
    match type with
    | .primitive .boolean => .ofBool false
    | .primitive _ => .ofInt 0
    | _ => .ofNull

/-- Stores the value of the `return` at a path in the carrier instead. The flag is false if there is no room for the assignment. -/
def storeReturn (target : Expr) (body : Block) (path : StmtPath) : Fresh (Block × Bool) :=
  match returnAt? body path with
  | some (some value) => do
    let body := setReturn body path none
    let store := Stmt.ofKind (.expr (.assign (← target.freshCopy) .assign value))
    match insertBefore? body path store with
    | some body => return (body, true)
    | none => return (body, false)
  | _ => pure (body, true)

/-- Stores the values of the returns at the given paths in turn, up to the first for which there is no room. -/
def storeReturnsAt (target : Expr) : Block → List StmtPath → Fresh (Block × Bool)
  | body, [] => pure (body, true)
  | body, path :: rest => do
    match ← storeReturn target body path with
    | (body, true) => storeReturnsAt target body rest
    | (body, false) => return (body, false)

/-- Stores what the enter method returns in the carrier, if the exit method wants it. -/
def storeReturns (locals : AdviceLocals) (var : String) (body : Block) : Fresh (Block × Bool) :=
  match locals.exitEnter with
  | none => pure (body, true)
  | some enter => do
    storeReturnsAt (← locals.access var enter.value.param) body body.returnPaths.reverse

/-- Moves the shared values of the enter method to a carrier variable, declared first in its body, and stores returned values there. Answers the variable, which the method is to return, or nothing if nothing is handed over. After an error the method is as far as the work got. -/
def transformEnter (locals : AdviceLocals) (method : Method) :
    Fresh (Method × Except MigrateError (Option ValueToReturn)) := do
  match locals.enterCarrier? with
  | none => return (method, .ok none)
  | some (base, type) =>
    if method.body.isNone then return (method, .error (.missingBody method.name))
    else
      let shared := locals.enter.map fun entry => entry.2.param
      let var := (TakenNames.ofMethod method shared).freshName base
      let method := eraseParams (← locals.readFromCarrier var method shared) shared
      match method.body with
      | none => return (method, .error (.missingBody method.name))
      | some body =>
        match ← locals.storeReturns var body with
        | (body, false) =>
          return ({ method with body := some body },
            .error (.unsupportedReturnPosition method.name))
        | (body, true) =>
          let decl ← Fresh.id
          let carrier := LocalVar.single decl type var (locals.initialValue type)
          return (declareFirst { method with body := some body } carrier,
            .ok (some ⟨decl, var, type, none⟩))

/-! ### The exit method -/

/-- What was added to the exit method: a parameter, and the variable for the carrier if the parameter holds several values. -/
structure ExitChange where
  param : NodeId
  unpacked : Option NodeId

/-- The preferred name of the carrier in the exit method. -/
def exitBase? (locals : AdviceLocals) : Option String :=
  if locals.needsContainer then some containerVar
  else (locals.firstOf? locals.exit).map (·.name)

/-- The parameters of the exit method that the carrier replaces. -/
def exitParams (locals : AdviceLocals) : List NodeId :=
  locals.exit.map (fun entry => entry.2.param) ++
    (locals.exitEnter.map fun enter => enter.value.param).toList

/-- Adds a parameter for an array of values with the carrier first, and a variable for the carrier. -/
def receivePacked (method : Method) (annot : Annot) (type : TypeRef) (var packed : String) :
    Fresh (Method × ExitChange) := do
  let param := Param.single (← Fresh.id) annot (.array objectType) packed
  let unpack := Expr.cast type (.index (← Expr.fresh packed) (.ofInt 0))
  let decl ← Fresh.id
  let method := declareFirst method (.single decl type var unpack)
  return ({ method with params := method.params ++ [param] }, ⟨param.id, some decl⟩)

def receive (method : Method) (annot : Annot) (type : TypeRef) (var : String) :
    Fresh (Method × ExitChange) := do
  let param := Param.single (← Fresh.id) annot type var
  return ({ method with params := method.params ++ [param] }, ⟨param.id, none⟩)

/-- Replaces the parameters of the exit method that take part in the hand-over by one for the carrier. When the enter method returns several values the parameter receives all of them, and the carrier is taken from slot 0. -/
def transformExit (locals : AdviceLocals) (method : Method) (enterPacked : Bool) (annot : Annot) :
    Fresh (Method × Except MigrateError (Option ExitChange)) := do
  match locals.carrierType?, locals.exitBase? with
  | none, _ => return (method, .ok none)
  | some type, base =>
    if method.body.isNone then return (method, .error (.missingBody method.name))
    else
      match base with
      | none => return (method, .ok none)
      | some base =>
        let replaced := locals.exitParams
        let (var, taken) := (TakenNames.ofMethod method replaced).fresh base
        let method := eraseParams (← locals.readFromCarrier var method replaced) replaced
        let (method, change) ←
          if enterPacked then receivePacked method annot type var (taken.freshName packedParam)
          else receive method annot type var
        return (method, .ok (some change))

end AdviceLocals

end AdviceMigration.Advice
