import AdviceMigration.Scope.Event

/-!
# Scopes of a method body

Runs the events of a method and records, for each occurrence of a name, the scope it sits in and the declaration it refers to. A name is looked up when it occurs, so a later declaration never captures an earlier use.
-/

namespace AdviceMigration.Scope

open AdviceMigration.Source

inductive Resolution where
  /-- A parameter of a method or lambda expression. -/
  | param (id : NodeId)
  /-- A local variable, a `catch` parameter or a pattern variable. -/
  | variable (id : NodeId)
  /-- A field of a class declared in the body. -/
  | field (id : NodeId)
  deriving DecidableEq, Repr, Inhabited

def Resolution.decl : Resolution → NodeId
  | .param id => id
  | .variable id => id
  | .field id => id

def Binder.resolution : Binder → NodeId → Resolution
  | .methodParam => .param
  | .lambdaParam => .param
  | .variable => .variable
  | .catchParam => .variable
  | .pattern => .variable
  | .field => .field
  | .enumConstant => .field

/-- A scope: the scope around it and the names bound in it. -/
structure ScopeData where
  parent : Option Nat
  entries : List (String × Resolution)
  deriving DecidableEq, Repr, Inhabited

namespace ScopeData

def find? (data : ScopeData) (name : String) : Option Resolution :=
  (data.entries.find? fun entry => entry.1 == name).map (·.2)

/-- Binds a name, in place of an earlier binding of it. -/
def insert (data : ScopeData) (name : String) (resolution : Resolution) : ScopeData :=
  { data with entries := (name, resolution) :: data.entries.filter fun entry => entry.1 != name }

end ScopeData

/-- An occurrence of a name, the scope it sits in and what it refers to. A name without resolution leaves the method, such as a field of the class around it. -/
structure NameUse where
  id : NodeId
  name : String
  role : Role
  scope : Nat
  resolution : Option Resolution
  deriving DecidableEq, Repr, Inhabited

/-- What a name means in a scope: its binding there, or in the nearest scope around it. A scope is numbered after the one around it, so `scope + 1` steps reach the outermost one. -/
def lookup (scopes : Array ScopeData) (name : String) : (steps scope : Nat) → Option Resolution
  | 0, _ => none
  | steps + 1, scope =>
    match scopes[scope]? with
    | none => none
    | some data =>
      match data.find? name with
      | some resolution => some resolution
      | none =>
        match data.parent with
        | some parent => lookup scopes name steps parent
        | none => none

structure ScopeReader where
  scopes : Array ScopeData
  current : Nat
  /-- Remembered scopes, last first. -/
  held : List Nat
  /-- Occurrences so far, last first. -/
  uses : List NameUse

namespace ScopeReader

def start : ScopeReader := ⟨#[⟨none, []⟩], 0, [], []⟩

def take (reader : ScopeReader) : Event → ScopeReader
  | .hold => { reader with held := reader.current :: reader.held }
  | .open =>
    { reader with
      scopes := reader.scopes.push ⟨some reader.current, []⟩
      current := reader.scopes.size }
  | .release =>
    match reader.held with
    | scope :: held => { reader with current := scope, held := held }
    | [] => reader
  | .swap =>
    match reader.held with
    | scope :: held => { reader with current := scope, held := reader.current :: held }
    | [] => reader
  | .bind binder name id =>
    { reader with
      scopes := reader.scopes.modify reader.current fun data =>
        data.insert name (binder.resolution id) }
  | .use role name id =>
    let resolution := lookup reader.scopes name (reader.current + 1) reader.current
    { reader with uses := ⟨id, name, role, reader.current, resolution⟩ :: reader.uses }
  | .effect => reader

end ScopeReader

/-- The scopes of a method body, numbered in the order in which they open, and the names in it. Scope 0 holds the parameters. -/
structure BodyScopes where
  scopes : Array ScopeData
  uses : List NameUse

namespace BodyScopes

/-- What a method says about names: its parameters, then its body. -/
def eventsOf (method : Method) : List Event :=
  (method.params.map fun param => .bind .methodParam param.name param.id) ++
    Block.eventsOption method.body

def ofMethod (method : Method) : BodyScopes :=
  let reader := (eventsOf method).foldl ScopeReader.take .start
  ⟨reader.scopes, reader.uses.reverse⟩

def use? (scopes : BodyScopes) (name : NodeId) : Option NameUse :=
  scopes.uses.find? fun occurrence => occurrence.id == name

def scopeOf? (scopes : BodyScopes) (name : NodeId) : Option Nat :=
  (scopes.use? name).map (·.scope)

def resolve? (scopes : BodyScopes) (name : NodeId) : Option Resolution :=
  (scopes.use? name).bind (·.resolution)

/-- What a name means at the end of a scope. -/
def resolveIn? (scopes : BodyScopes) (scope : Nat) (name : String) : Option Resolution :=
  lookup scopes.scopes name (scope + 1) scope

def refersTo (occurrence : NameUse) (decl : NodeId) : Bool :=
  match occurrence.resolution with
  | some resolution => resolution.decl == decl
  | none => false

def references (scopes : BodyScopes) (decl : NodeId) : List NameUse :=
  scopes.uses.filter fun occurrence => refersTo occurrence decl

end BodyScopes

end AdviceMigration.Scope
