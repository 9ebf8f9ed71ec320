import AdviceMigration.Advice.Error
import AdviceMigration.Advice.Framework
import AdviceMigration.Source.Annot

/-!
# Bindings

What each parameter of an advice method is bound to.
-/

namespace AdviceMigration.Advice

open AdviceMigration.Source AdviceMigration.Scope

inductive BindingRole where
  /-- A value shared between the two advice methods under a key. -/
  | shared (key : String)
  /-- An argument of the instrumented method. -/
  | argument (index : Int)
  /-- A field of the instrumented instance; its name is kept as written. -/
  | field (name : ElementValue)
  /-- The return value of the instrumented method. -/
  | returned
  /-- The value that the enter method returned. -/
  | entered
  | thrown
  | unbound

/-- A parameter with what it stands for. -/
structure Binding where
  param : NodeId
  name : String
  type : TypeRef
  role : BindingRole
  /-- Only arguments, fields and the return value can be anything but read-only. -/
  readOnly : Bool
  /-- Position of the annotation that gives the role. -/
  annotIndex : Nat

namespace Binding

/-- Whether the final value of the parameter is to be written back to the instrumented method. -/
def isWritable (binding : Binding) : Bool :=
  !binding.readOnly &&
    match binding.role with
    | .argument _ | .field _ | .returned => true
    | _ => false

def key? (binding : Binding) : Option String :=
  match binding.role with
  | .shared key => some key
  | _ => none

/-- Whether the parameter receives what the enter method returned. -/
def isEntered (binding : Binding) : Bool :=
  match binding.role with
  | .entered => true
  | _ => false

def isArgument (binding : Binding) : Bool :=
  match binding.role with
  | .argument _ => true
  | _ => false

def isField (binding : Binding) : Bool :=
  match binding.role with
  | .field _ => true
  | _ => false

def isReturned (binding : Binding) : Bool :=
  match binding.role with
  | .returned => true
  | _ => false

/-- The qualified names of the annotations that give a role. -/
def roleNames : List String :=
  [Framework.localValue, Framework.argument, Framework.fieldValue, Framework.returnValue,
    Framework.enterValue, Framework.thrown]

/-- The first annotation that gives a role: its position, its qualified name and the annotation. -/
def findRole? (scope : TypeScope) (index : Nat) : List Annot → Option (Nat × String × Annot)
  | [] => none
  | annot :: rest =>
    match scope.resolve? annot.name with
    | some qualified =>
      if roleNames.contains qualified then some (index, qualified, annot)
      else findRole? scope (index + 1) rest
    | none => findRole? scope (index + 1) rest

def roleOf (qualified : String) (annot : Annot) : Except InvalidValue BindingRole :=
  if qualified == Framework.localValue then
    match (annot.element? "value").bind (·.string?) with
    | some key => .ok (.shared key)
    | none => .error .localName
  else if qualified == Framework.argument then
    match (annot.element? "value").bind (·.int?) with
    | some index => .ok (.argument index)
    | none => .error .argumentIndex
  else if qualified == Framework.fieldValue then
    match annot.element? "value" with
    | some name => .ok (.field name)
    | none => .error .fieldName
  else if qualified == Framework.returnValue then .ok .returned
  else if qualified == Framework.enterValue then .ok .entered
  else .ok .thrown

/-- Whether a binding with the given role is read-only. It is unless its annotation says otherwise; only arguments, fields and the return value may. -/
def readOnlyOf (role : BindingRole) (annot : Annot) : Except InvalidValue Bool :=
  match role with
  | .argument _ | .field _ | .returned =>
    match annot.element? "readOnly" with
    | some value =>
      match value.bool? with
      | some readOnly => .ok readOnly
      | none => .error .readOnly
    | none => .ok true
  | _ => .ok true

def ofParam (scope : TypeScope) (param : Param) : Except MigrateError Binding :=
  match findRole? scope 0 param.annotations with
  | none => .ok ⟨param.id, param.name, param.declaredType, .unbound, true, 0⟩
  | some (index, qualified, annot) =>
    match roleOf qualified annot with
    | .error value => .error (.invalidAnnotValue param.name value)
    | .ok role =>
      match readOnlyOf role annot with
      | .error value => .error (.invalidAnnotValue param.name value)
      | .ok readOnly => .ok ⟨param.id, param.name, param.declaredType, role, readOnly, index⟩

def ofMethod (scope : TypeScope) (method : Method) : Except MigrateError (List Binding) :=
  method.params.mapM (ofParam scope)

end Binding

end AdviceMigration.Advice
