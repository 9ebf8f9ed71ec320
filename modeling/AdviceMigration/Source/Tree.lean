import AdviceMigration.Source.Operator
import AdviceMigration.Source.TypeRef

/-!
# Syntax trees

The tree of a compilation unit. Declarations and name occurrences carry a `NodeId`, by which the rest of the library tells two things of one spelling apart; statements, members and types carry the `Layout` they were written with.
-/

namespace AdviceMigration.Source

open AdviceMigration.Text (NewlineStyle)

/-- Identity of a declaration or of a name occurrence. -/
abbrev NodeId := Nat

inductive TypeKind where
  | «class»
  | interface
  | enum
  deriving DecidableEq, Repr, Inhabited

/-- How the statements of a switch case are attached to its labels. -/
inductive CaseForm where
  /-- After a colon. -/
  | colon
  /-- After an arrow, in braces. -/
  | arrowBlock
  /-- After an arrow, one statement without braces. -/
  | arrowSingle
  deriving DecidableEq, Repr, Inhabited

/-- A literal as written, quotes and suffixes included. -/
structure Literal where
  kind : LiteralKind
  text : String
  deriving DecidableEq, Repr, Inhabited

/-- A parameter of a lambda expression; its type may be left out. -/
structure LambdaParam where
  id : NodeId
  modifiers : List Modifier
  type : Option TypeRef
  name : String

/-- The variable that a type test introduces. -/
structure PatternBinding where
  id : NodeId
  isFinal : Bool
  name : String
  deriving DecidableEq, Repr, Inhabited

mutual
inductive Expr where
  | name (id : NodeId) (name : String)
  | literal (literal : Literal)
  | field (receiver : Expr) (name : String)
  | call (receiver : Option Expr) (typeArgs : List TypeRef) (name : String) (args : List Expr)
  | index (array : Expr) (index : Expr)
  | assign (target : Expr) (op : AssignOp) (value : Expr)
  | binary (op : BinaryOp) (left : Expr) (right : Expr)
  | unary (op : UnaryOp) (operand : Expr)
  | conditional (cond : Expr) (yes : Expr) (no : Expr)
  | cast (type : TypeRef) (operand : Expr)
  | instanceOf (operand : Expr) (type : TypeRef) (binding : Option PatternBinding)
  | new (outer : Option Expr) (type : TypeRef) (args : List Expr) (body : Option (List Member))
  /-- One entry of `dims` for each pair of brackets, empty for an empty pair. -/
  | newArray (element : TypeRef) (dims : List (Option Expr)) (init : Option (List Expr))
  | arrayInit (items : List Expr)
  | lambda (params : List LambdaParam) (parenthesized : Bool) (body : LambdaBody)
  | methodRef (target : Expr) (name : String)
  | classLiteral (type : TypeRef)
  | this
  | super
  | paren (inner : Expr)
  /-- A type where an expression is expected, such as the target of a constructor reference. -/
  | typeName (type : TypeRef)

inductive LambdaBody where
  | expr (value : Expr)
  | block (body : Block)

/-- Statements in braces, with the comments in front of the closing brace. -/
structure Block where
  stmts : List Stmt
  endComments : List Comment
  closing : Option Trivia

/-- A statement with its layout and the comment after it on its last line. -/
structure Stmt where
  layout : Layout
  trailing : Option Comment
  kind : StmtKind

inductive StmtKind where
  | block (body : Block)
  | localVar (decl : LocalVar)
  | localClass (decl : TypeDecl)
  | expr (value : Expr)
  | ret (value : Option Expr)
  | ifElse (cond : Expr) (yes : Stmt) (no : Option Stmt)
  | whileLoop (cond : Expr) (body : Stmt)
  | doWhile (body : Stmt) (cond : Expr)
  | forLoop (init : ForInit) (cond : Option Expr) (update : List Expr) (body : Stmt)
  | forEach (var : LoopVar) (iterable : Expr) (body : Stmt)
  | tryBlock (resources : List Resource) (body : Block) (catches : List CatchClause)
      (finallyBody : Option Block)
  | throw (value : Expr)
  | breakTo (label : Option String)
  | continueTo (label : Option String)
  | switch (selector : Expr) (cases : List SwitchCase)
  | sync (lock : Expr) (body : Block)
  | labeled (label : String) (body : Stmt)
  | assertion (cond : Expr) (message : Option Expr)
  | empty

/-- What a `for` loop starts with; no expressions stand for an empty start. -/
inductive ForInit where
  | decl (decl : LocalVar)
  | exprs (values : List Expr)

inductive Resource where
  | decl (decl : LocalVar)
  | expr (value : Expr)

structure LoopVar where
  id : NodeId
  annotations : List Annot
  modifiers : List Modifier
  type : TypeRef
  name : String

/-- A `catch` clause with its parameter, which may have several types. -/
structure CatchClause where
  id : NodeId
  annotations : List Annot
  modifiers : List Modifier
  types : List TypeRef
  name : String
  body : Block

/-- A case of a `switch` statement. The default case has no labels. -/
structure SwitchCase where
  comments : List Comment
  labels : List Expr
  isDefault : Bool
  form : CaseForm
  body : Block

structure LocalVar where
  annotations : List Annot
  modifiers : List Modifier
  type : TypeRef
  declarators : List Declarator

/-- A declared variable: its name, the brackets after it, and its initial value. -/
structure Declarator where
  id : NodeId
  name : String
  dims : Nat
  init : Option Expr

/-- An annotation: a bare name, a name with one value, or a name with named values. -/
inductive Annot where
  | marker (name : String)
  | single (name : String) (value : ElementValue)
  | pairs (name : String) (pairs : List ElementPair)

structure ElementPair where
  name : String
  value : ElementValue

inductive ElementValue where
  | expr (value : Expr)
  | annot (value : Annot)
  | array (values : List ElementValue)

inductive Member where
  | field (decl : FieldDecl)
  | method (decl : Method)
  | type (decl : TypeDecl)
  | initializer (decl : Initializer)

structure FieldDecl where
  layout : Layout
  annotations : List Annot
  modifiers : List Modifier
  type : TypeRef
  declarators : List Declarator
  trailing : Option Comment

/-- A method, or a constructor when it has no return type. -/
structure Method where
  id : NodeId
  layout : Layout
  annotations : List Annot
  modifiers : List Modifier
  typeParams : List TypeParam
  returnType : Option TypeRef
  name : String
  params : List Param
  throws : List TypeRef
  body : Option Block

structure Param where
  id : NodeId
  annotations : List Annot
  modifiers : List Modifier
  type : TypeRef
  varargs : Bool
  name : String

structure Initializer where
  layout : Layout
  isStatic : Bool
  body : Block

/-- A class, interface or enum. -/
structure TypeDecl where
  id : NodeId
  layout : Layout
  annotations : List Annot
  modifiers : List Modifier
  kind : TypeKind
  name : String
  typeParams : List TypeParam
  superTypes : List TypeRef
  interfaces : List TypeRef
  constants : List EnumConstant
  members : List Member
  endComments : List Comment
  closing : Option Trivia

structure EnumConstant where
  comments : List Comment
  annotations : List Annot
  name : String
  args : Option (List Expr)
  body : Option (List Member)
end

structure PackageDecl where
  comments : List Comment
  name : String
  deriving DecidableEq, Repr, Inhabited

/-- An import declaration; the path leaves out a final `.*`. -/
structure ImportDecl where
  comments : List Comment
  blankLineBefore : Bool
  isStatic : Bool
  isWildcard : Bool
  path : String
  deriving DecidableEq, Repr, Inhabited

/-- A compilation unit. `leading` and `header` are the comments in front of the package and import declarations and these declarations as written; `closing` is what stands after the last type. -/
structure CompilationUnit where
  package : Option PackageDecl
  imports : List ImportDecl
  types : List TypeDecl
  endComments : List Comment
  newline : NewlineStyle
  leading : Option Trivia
  header : Option Verbatim
  closing : Option Trivia

instance : Inhabited Expr := ⟨.this⟩
instance : Inhabited Block := ⟨⟨[], [], none⟩⟩
instance : Inhabited Stmt := ⟨⟨.unwritten, none, .empty⟩⟩

end AdviceMigration.Source
