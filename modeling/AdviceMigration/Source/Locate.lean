import AdviceMigration.Source.Path

/-!
# Finding declarations by name

Types are found by the simple names that lead to them, methods, parameters and local variables by their own. Of several with one name the first counts.
-/

namespace AdviceMigration.Source

def Member.isTypeNamed (name : String) : Member → Bool
  | .type decl => decl.name == name
  | _ => false

namespace TypeDecl

/-- The types that nested names lead through, from this one on. -/
def along? (decl : TypeDecl) : List String → Option (List TypeDecl)
  | [] => some [decl]
  | name :: rest =>
    match decl.memberTypes.find? fun inner => inner.name == name with
    | some inner => (inner.along? rest).map (decl :: ·)
    | none => none

def updateNested (change : TypeDecl → TypeDecl) (decl : TypeDecl) : List String → TypeDecl
  | [] => change decl
  | name :: rest =>
    match decl.members.findIdx? (Member.isTypeNamed name) with
    | none => decl
    | some index =>
      { decl with
        members := decl.members.modify index fun member =>
          match member with
          | .type inner => .type (inner.updateNested change rest)
          | other => other }

def methodNamed? (decl : TypeDecl) (name : String) : Option Method :=
  decl.methods.find? fun method => method.name == name

end TypeDecl

namespace CompilationUnit

/-- The types that names lead through, outermost first. -/
def along? (unit : CompilationUnit) : List String → Option (List TypeDecl)
  | [] => none
  | name :: rest =>
    match unit.types.find? fun decl => decl.name == name with
    | some decl => decl.along? rest
    | none => none

def updateType (unit : CompilationUnit) (names : List String) (change : TypeDecl → TypeDecl) :
    CompilationUnit :=
  match names with
  | [] => unit
  | name :: rest =>
    match unit.types.findIdx? fun decl => decl.name == name with
    | none => unit
    | some index =>
      { unit with types := unit.types.modify index fun decl => decl.updateNested change rest }

end CompilationUnit

structure Declared where
  id : NodeId
  type : TypeRef

def Stmt.declared? (name : String) (stmt : Stmt) : Option Declared :=
  match stmt.kind with
  | .localVar decl =>
    (decl.declarators.find? fun d => d.name == name).map fun d => ⟨d.id, decl.declaratorType d⟩
  | _ => none

/-- The parameter with a name, or else the first local variable with it in the method's own scope. -/
def Method.declared? (method : Method) (name : String) : Option Declared :=
  match method.params.find? fun param => param.name == name with
  | some param => some ⟨param.id, param.declaredType⟩
  | none =>
    match method.body with
    | none => none
    | some body => body.scoped.findSome? fun entry => entry.2.declared? name

end AdviceMigration.Source
