import AdviceMigration.Source.Node

/-!
# Traversing trees

One traversal serves every edit that replaces identities or names. It visits each declaration and each name occurrence once, in a fixed order, and rebuilds the tree from what the two actions of a `Traversal` answer. The arguments of annotations are constants and are left alone.
-/

namespace AdviceMigration.Source

/-- What to do with the identity of a declaration and with an occurrence of a name. -/
structure Traversal (m : Type → Type) where
  decl : NodeId → m NodeId
  name : NodeId → String → m Expr

variable {m : Type → Type} [Monad m]

def LambdaParam.traverse (t : Traversal m) (param : LambdaParam) : m LambdaParam := do
  return { param with id := ← t.decl param.id }

def PatternBinding.traverse (t : Traversal m) (binding : PatternBinding) : m PatternBinding := do
  return { binding with id := ← t.decl binding.id }

def Param.traverse (t : Traversal m) (param : Param) : m Param := do
  return { param with id := ← t.decl param.id }

mutual
/-- Traverses an expression. -/
def Expr.traverse (t : Traversal m) : Expr → m Expr
  | .name id name => t.name id name
  | .literal literal => pure (.literal literal)
  | .field receiver name => do
    return .field (← receiver.traverse t) name
  | .call none typeArgs name args => do
    return .call none typeArgs name (← Expr.traverseList t args)
  | .call (some receiver) typeArgs name args => do
    let receiver ← receiver.traverse t
    return .call (some receiver) typeArgs name (← Expr.traverseList t args)
  | .index array index => do
    let array ← array.traverse t
    return .index array (← index.traverse t)
  | .assign target op value => do
    let target ← target.traverse t
    return .assign target op (← value.traverse t)
  | .binary op left right => do
    let left ← left.traverse t
    return .binary op left (← right.traverse t)
  | .unary op operand => do
    return .unary op (← operand.traverse t)
  | .conditional cond yes no => do
    let cond ← cond.traverse t
    let yes ← yes.traverse t
    return .conditional cond yes (← no.traverse t)
  | .cast type operand => do
    return .cast type (← operand.traverse t)
  | .instanceOf operand type none => do
    return .instanceOf (← operand.traverse t) type none
  | .instanceOf operand type (some binding) => do
    let operand ← operand.traverse t
    return .instanceOf operand type (some (← binding.traverse t))
  | .new outer type args body => do
    let outer ← Expr.traverseOption t outer
    let args ← Expr.traverseList t args
    return .new outer type args (← Member.traverseBody t body)
  | .newArray element dims init => do
    let dims ← Expr.traverseDims t dims
    return .newArray element dims (← Expr.traverseItems t init)
  | .arrayInit items => do
    return .arrayInit (← Expr.traverseList t items)
  | .lambda params parenthesized body => do
    let params ← params.mapM (LambdaParam.traverse t)
    return .lambda params parenthesized (← body.traverse t)
  | .methodRef target name => do
    return .methodRef (← target.traverse t) name
  | .classLiteral type => pure (.classLiteral type)
  | .this => pure .this
  | .super => pure .super
  | .paren inner => do
    return .paren (← inner.traverse t)
  | .typeName type => pure (.typeName type)

def Expr.traverseList (t : Traversal m) : List Expr → m (List Expr)
  | [] => pure []
  | expr :: rest => do
    let expr ← expr.traverse t
    return expr :: (← Expr.traverseList t rest)

def Expr.traverseOption (t : Traversal m) : Option Expr → m (Option Expr)
  | none => pure none
  | some expr => do
    return some (← expr.traverse t)

def Expr.traverseDims (t : Traversal m) : List (Option Expr) → m (List (Option Expr))
  | [] => pure []
  | dim :: rest => do
    let dim ← Expr.traverseOption t dim
    return dim :: (← Expr.traverseDims t rest)

def Expr.traverseItems (t : Traversal m) : Option (List Expr) → m (Option (List Expr))
  | none => pure none
  | some items => do
    return some (← Expr.traverseList t items)

def LambdaBody.traverse (t : Traversal m) : LambdaBody → m LambdaBody
  | .expr value => do
    return .expr (← value.traverse t)
  | .block body => do
    return .block (← body.traverse t)

def Block.traverse (t : Traversal m) : Block → m Block
  | ⟨stmts, endComments, closing⟩ => do
    return ⟨← Stmt.traverseList t stmts, endComments, closing⟩

def Block.traverseOption (t : Traversal m) : Option Block → m (Option Block)
  | none => pure none
  | some body => do
    return some (← body.traverse t)

def Stmt.traverseList (t : Traversal m) : List Stmt → m (List Stmt)
  | [] => pure []
  | stmt :: rest => do
    let stmt ← stmt.traverse t
    return stmt :: (← Stmt.traverseList t rest)

def Stmt.traverse (t : Traversal m) : Stmt → m Stmt
  | ⟨layout, trailing, kind⟩ => do
    return ⟨layout, trailing, ← kind.traverse t⟩

def StmtKind.traverse (t : Traversal m) : StmtKind → m StmtKind
  | .block body => do
    return .block (← body.traverse t)
  | .localVar decl => do
    return .localVar (← decl.traverse t)
  | .localClass decl => do
    return .localClass (← decl.traverse t)
  | .expr value => do
    return .expr (← value.traverse t)
  | .ret value => do
    return .ret (← Expr.traverseOption t value)
  | .ifElse cond yes none => do
    let cond ← cond.traverse t
    return .ifElse cond (← yes.traverse t) none
  | .ifElse cond yes (some no) => do
    let cond ← cond.traverse t
    let yes ← yes.traverse t
    return .ifElse cond yes (some (← no.traverse t))
  | .whileLoop cond body => do
    let cond ← cond.traverse t
    return .whileLoop cond (← body.traverse t)
  | .doWhile body cond => do
    let body ← body.traverse t
    return .doWhile body (← cond.traverse t)
  | .forLoop init cond update body => do
    let init ← init.traverse t
    let cond ← Expr.traverseOption t cond
    let update ← Expr.traverseList t update
    return .forLoop init cond update (← body.traverse t)
  | .forEach var iterable body => do
    let iterable ← iterable.traverse t
    let var ← var.traverse t
    return .forEach var iterable (← body.traverse t)
  | .tryBlock resources body catches finallyBody => do
    let resources ← Resource.traverseList t resources
    let body ← body.traverse t
    let catches ← CatchClause.traverseList t catches
    return .tryBlock resources body catches (← Block.traverseOption t finallyBody)
  | .throw value => do
    return .throw (← value.traverse t)
  | .breakTo label => pure (.breakTo label)
  | .continueTo label => pure (.continueTo label)
  | .switch selector cases => do
    let selector ← selector.traverse t
    return .switch selector (← SwitchCase.traverseList t cases)
  | .sync lock body => do
    let lock ← lock.traverse t
    return .sync lock (← body.traverse t)
  | .labeled label body => do
    return .labeled label (← body.traverse t)
  | .assertion cond message => do
    let cond ← cond.traverse t
    return .assertion cond (← Expr.traverseOption t message)
  | .empty => pure .empty

def ForInit.traverse (t : Traversal m) : ForInit → m ForInit
  | .decl decl => do
    return .decl (← decl.traverse t)
  | .exprs values => do
    return .exprs (← Expr.traverseList t values)

def Resource.traverseList (t : Traversal m) : List Resource → m (List Resource)
  | [] => pure []
  | .decl decl :: rest => do
    let decl ← decl.traverse t
    return .decl decl :: (← Resource.traverseList t rest)
  | .expr value :: rest => do
    let value ← value.traverse t
    return .expr value :: (← Resource.traverseList t rest)

def LoopVar.traverse (t : Traversal m) : LoopVar → m LoopVar
  | ⟨id, annotations, modifiers, type, name⟩ => do
    return ⟨← t.decl id, annotations, modifiers, type, name⟩

def CatchClause.traverseList (t : Traversal m) : List CatchClause → m (List CatchClause)
  | [] => pure []
  | ⟨id, annotations, modifiers, types, name, body⟩ :: rest => do
    let id ← t.decl id
    let body ← body.traverse t
    return ⟨id, annotations, modifiers, types, name, body⟩ :: (← CatchClause.traverseList t rest)

def SwitchCase.traverseList (t : Traversal m) : List SwitchCase → m (List SwitchCase)
  | [] => pure []
  | ⟨comments, labels, isDefault, form, body⟩ :: rest => do
    let labels ← Expr.traverseList t labels
    let body ← body.traverse t
    return ⟨comments, labels, isDefault, form, body⟩ :: (← SwitchCase.traverseList t rest)

def LocalVar.traverse (t : Traversal m) : LocalVar → m LocalVar
  | ⟨annotations, modifiers, type, declarators⟩ => do
    return ⟨annotations, modifiers, type, ← Declarator.traverseList t declarators⟩

/-- Traverses declared variables in order, each before its initial value. -/
def Declarator.traverseList (t : Traversal m) : List Declarator → m (List Declarator)
  | [] => pure []
  | ⟨id, name, dims, init⟩ :: rest => do
    let id ← t.decl id
    let init ← Expr.traverseOption t init
    return ⟨id, name, dims, init⟩ :: (← Declarator.traverseList t rest)

def Member.traverseBody (t : Traversal m) : Option (List Member) → m (Option (List Member))
  | none => pure none
  | some members => do
    return some (← Member.traverseList t members)

def Member.traverseList (t : Traversal m) : List Member → m (List Member)
  | [] => pure []
  | member :: rest => do
    let member ← member.traverse t
    return member :: (← Member.traverseList t rest)

def Member.traverse (t : Traversal m) : Member → m Member
  | .field decl => do
    return .field (← decl.traverse t)
  | .method decl => do
    return .method (← decl.traverse t)
  | .type decl => do
    return .type (← decl.traverse t)
  | .initializer decl => do
    return .initializer (← decl.traverse t)

def FieldDecl.traverse (t : Traversal m) : FieldDecl → m FieldDecl
  | ⟨layout, annotations, modifiers, type, declarators, trailing⟩ => do
    return ⟨layout, annotations, modifiers, type, ← Declarator.traverseList t declarators, trailing⟩

/-- Traverses a method: its identity, its parameters, its body. -/
def Method.traverse (t : Traversal m) : Method → m Method
  | ⟨id, layout, annotations, modifiers, typeParams, returnType, name, params, throws, body⟩ => do
    let id ← t.decl id
    let params ← params.mapM (Param.traverse t)
    let body ← Block.traverseOption t body
    return ⟨id, layout, annotations, modifiers, typeParams, returnType, name, params, throws, body⟩

def Initializer.traverse (t : Traversal m) : Initializer → m Initializer
  | ⟨layout, isStatic, body⟩ => do
    return ⟨layout, isStatic, ← body.traverse t⟩

/-- Traverses a type: its identity, its constants, its members. -/
def TypeDecl.traverse (t : Traversal m) : TypeDecl → m TypeDecl
  | ⟨id, layout, annotations, modifiers, kind, name, typeParams, superTypes, interfaces, constants,
      members, endComments, closing⟩ => do
    let id ← t.decl id
    let constants ← EnumConstant.traverseList t constants
    let members ← Member.traverseList t members
    return ⟨id, layout, annotations, modifiers, kind, name, typeParams, superTypes, interfaces,
      constants, members, endComments, closing⟩

def EnumConstant.traverseList (t : Traversal m) : List EnumConstant → m (List EnumConstant)
  | [] => pure []
  | ⟨comments, annotations, name, args, body⟩ :: rest => do
    let args ← Expr.traverseItems t args
    let body ← Member.traverseBody t body
    return ⟨comments, annotations, name, args, body⟩ :: (← EnumConstant.traverseList t rest)
end

/-! ### Copies -/

/-- Gives every declaration and name occurrence a new identity. -/
def Traversal.renumber : Traversal Fresh where
  decl := fun _ => Fresh.id
  name := fun _ name => Expr.fresh name

/-- A copy with new identities, which can stand next to the expression. -/
def Expr.freshCopy (expr : Expr) : Fresh Expr := expr.traverse .renumber

def Stmt.freshCopy (stmt : Stmt) : Fresh Stmt := stmt.traverse .renumber

/-! ### Listing -/

/-- A declaration, or a name occurrence with its spelling. -/
inductive Mention where
  | decl (id : NodeId)
  | name (id : NodeId) (name : String)
  deriving DecidableEq, Repr, Inhabited

def Mention.id : Mention → NodeId
  | .decl id => id
  | .name id _ => id

/-- Collects what is visited, last first. -/
def Traversal.collect : Traversal (StateM (List Mention)) where
  decl := fun id => modifyGet fun seen => (id, .decl id :: seen)
  name := fun id name => modifyGet fun seen => (.name id name, .name id name :: seen)

/-- The declarations and name occurrences of a method in the order of the traversal, the method itself first. -/
def Method.mentions (method : Method) : List Mention :=
  ((method.traverse .collect).run []).2.reverse

end AdviceMigration.Source
