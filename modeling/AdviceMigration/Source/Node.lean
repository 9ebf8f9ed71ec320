import AdviceMigration.Source.Tree

/-!
# Making and finding nodes

Nodes that an edit adds are made here; they have no written layout. Identities come from a supply, the least number not yet used.
-/

namespace AdviceMigration.Source

/-- A computation that draws node identities; its state is the next unused one. -/
abbrev Fresh := StateM NodeId

def Fresh.id : Fresh NodeId := modifyGet fun next => (next, next + 1)

namespace Expr

def fresh (name : String) : Fresh Expr := do
  return .name (← Fresh.id) name

def ofInt (value : Int) : Expr := .literal ⟨.int, toString value⟩

def ofBool (value : Bool) : Expr := .literal ⟨.bool, if value then "true" else "false"⟩

def ofNull : Expr := .literal ⟨.null, "null"⟩

/-- The spelling of a bare name. -/
def name? : Expr → Option String
  | .name _ spelling => some spelling
  | _ => none

/-- Whether an expression may stand alone as a statement. -/
def isStatement : Expr → Bool
  | .assign .. | .call .. | .new .. => true
  | .unary op _ => op.hasSideEffects
  | _ => false

end Expr

namespace Stmt

/-- A statement without a written layout. -/
def ofKind (kind : StmtKind) : Stmt := ⟨.unwritten, none, kind⟩

def isReturn (stmt : Stmt) : Bool :=
  match stmt.kind with
  | .ret _ => true
  | _ => false

/-- The statement with other comments, empty line flag and captured lines in front of it. -/
def withLeading (stmt : Stmt) (comments : List Comment) (blankLineBefore : Bool)
    (leading : Option Trivia) : Stmt :=
  { stmt with
    layout := { stmt.layout with
      comments := comments, blankLineBefore := blankLineBefore, leading := leading } }

end Stmt

def Block.ofStmts (stmts : List Stmt) : Block := ⟨stmts, [], none⟩

/-- The type of a variable, the brackets after its name included. -/
def LocalVar.declaratorType (decl : LocalVar) (declarator : Declarator) : TypeRef :=
  decl.type.arrayOf declarator.dims

def LocalVar.single (id : NodeId) (type : TypeRef) (name : String) (init : Expr) : LocalVar :=
  ⟨[], [], type, [⟨id, name, 0, some init⟩]⟩

namespace Param

def single (id : NodeId) (annot : Annot) (type : TypeRef) (name : String) : Param :=
  ⟨id, [annot], [], type, false, name⟩

/-- The type of a parameter as the method body sees it. -/
def declaredType (param : Param) : TypeRef :=
  if param.varargs then .array param.type else param.type

end Param

namespace Method

def param? (method : Method) (id : NodeId) : Option Param :=
  method.params.find? fun param => param.id == id

def eraseParam (method : Method) (id : NodeId) : Method :=
  { method with params := method.params.eraseP fun param => param.id == id }

def returnsVoid (method : Method) : Bool :=
  match method.returnType with
  | none | some .void => true
  | _ => false

end Method

def Member.id? : Member → Option NodeId
  | .method decl => some decl.id
  | .type decl => some decl.id
  | .field _ | .initializer _ => none

/-- A public field without an initial value. -/
def FieldDecl.simple (id : NodeId) (type : TypeRef) (name : String) : FieldDecl :=
  ⟨.unwritten, [], [.public], type, [⟨id, name, 0, none⟩], none⟩

namespace TypeDecl

def emptyClass (id : NodeId) (name : String) (modifiers : List Modifier) : TypeDecl :=
  ⟨id, .unwritten, [], modifiers, .class, name, [], [], [], [], [], [], none⟩

def methods (decl : TypeDecl) : List Method :=
  decl.members.filterMap fun member =>
    match member with
    | .method method => some method
    | _ => none

def method? (decl : TypeDecl) (id : NodeId) : Option Method :=
  decl.methods.find? fun method => method.id == id

def memberTypes (decl : TypeDecl) : List TypeDecl :=
  decl.members.filterMap fun member =>
    match member with
    | .type inner => some inner
    | _ => none

def fieldNames (decl : TypeDecl) : List String :=
  decl.members.flatMap fun member =>
    match member with
    | .field field => field.declarators.map (·.name)
    | _ => []

def memberIndex? (decl : TypeDecl) (id : NodeId) : Option Nat :=
  decl.members.findIdx? fun member => member.id? == some id

/-- Puts a method in place of the first one with its identity. -/
def replaceMethod (decl : TypeDecl) (method : Method) : TypeDecl :=
  let rec replace : List Member → List Member
    | [] => []
    | .method old :: rest =>
      if old.id == method.id then .method method :: rest else .method old :: replace rest
    | member :: rest => member :: replace rest
  { decl with members := replace decl.members }

end TypeDecl

namespace CompilationUnit

def hasImport (unit : CompilationUnit) (path : String) : Bool :=
  unit.imports.any fun decl => !decl.isStatic && !decl.isWildcard && decl.path == path

/-- The unit with an import of the given path after the others; nothing if it has one already. The captured header is dropped. -/
def addImport? (unit : CompilationUnit) (path : String) : Option CompilationUnit :=
  if unit.hasImport path then none
  else some { unit with imports := unit.imports ++ [⟨[], false, false, false, path⟩], header := none }

end CompilationUnit

end AdviceMigration.Source
