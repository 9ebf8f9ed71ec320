import AdviceMigration.Advice.Error
import AdviceMigration.Advice.Usage
import AdviceMigration.Scope.Body
import AdviceMigration.Source.Path
import AdviceMigration.Source.Traverse

/-!
# Edits by meaning

Edits that go by what a name refers to rather than by how it is spelled.
-/

namespace AdviceMigration.Advice

open AdviceMigration.Source AdviceMigration.Scope

/-! ### References -/

/-- Puts a copy of an expression in place of each occurrence that refers to a declaration, and counts them. -/
def replacing (scopes : BodyScopes) (decl : NodeId) (replacement : Expr) :
    Traversal (StateT Nat Fresh) where
  decl := pure
  name := fun id name =>
    match scopes.resolve? id with
    | some resolution =>
      if resolution.decl == decl then do
        modify (· + 1)
        replacement.freshCopy
      else pure (.name id name)
    | none => pure (.name id name)

/-- The method with a copy of an expression in place of each reference to a declaration in its body, and the number of these references. -/
def replaceReferences (method : Method) (decl : NodeId) (replacement : Expr) :
    Fresh (Method × Nat) := do
  let scopes := BodyScopes.ofMethod method
  let (body, count) ← (Block.traverseOption (replacing scopes decl replacement) method.body).run 0
  return ({ method with body := body }, count)

def isReference (scopes : BodyScopes) (decl name : NodeId) : Bool :=
  (scopes.references decl).any fun occurrence => occurrence.id == name

def usagesOf (method : Method) (decl : NodeId) : Usages :=
  Block.usagesOption (isReference (BodyScopes.ofMethod method) decl) method.body

/-! ### Statements -/

/-- The statement after a removed one: it takes over the comments, the empty line and, if they fit, the lines in front. -/
def inheritLeading (removed next : Stmt) : Stmt :=
  let comments := removed.layout.comments ++ removed.trailing.toList ++ next.layout.comments
  let blank := next.layout.blankLineBefore || removed.layout.blankLineBefore
  let leading :=
    if (Trivia.textFor? removed.layout.leading comments blank).isSome then removed.layout.leading
    else next.layout.leading
  next.withLeading comments blank leading

/-- The block without one of its statements. Its comments go to the next statement, or to the end of the block; there the comment after the removed statement is lost. -/
def removeStmt? (block : Block) (index : Nat) : Option Block :=
  match block.stmts[index]?, block.stmts[index + 1]? with
  | some removed, some next =>
    some { block with
      stmts := (block.stmts.set (index + 1) (inheritLeading removed next)).eraseIdx index }
  | some removed, none =>
    some { block with
      stmts := block.stmts.eraseIdx index
      endComments := removed.layout.comments ++ block.endComments }
  | none, _ => none

/-- The body with a statement in front of the one at the given path, which must stand directly in a block. The new statement takes over what stands in front of the other. -/
def insertBefore? (body : Block) (path : StmtPath) (stmt : Stmt) : Option Block :=
  match path.blockIndex? with
  | none => none
  | some (blockPath, index) =>
    body.updateBlock? blockPath fun block =>
      match block.stmts[index]? with
      | none => none
      | some anchor =>
        let inserted := stmt.withLeading anchor.layout.comments anchor.layout.blankLineBefore
          anchor.layout.leading
        let anchor := anchor.withLeading [] false none
        some { block with stmts := (block.stmts.set index anchor).insertIdx index inserted }

/-! ### Declarations -/

def declares (decl : NodeId) (stmt : Stmt) : Bool :=
  match stmt.kind with
  | .localVar declared => declared.declarators.any fun d => d.id == decl
  | _ => false

def declaredCount (stmt : Stmt) : Nat :=
  match stmt.kind with
  | .localVar declared => declared.declarators.length
  | _ => 0

def withoutDeclarator (decl : NodeId) (stmt : Stmt) : Stmt :=
  match stmt.kind with
  | .localVar declared =>
    { stmt with
      kind := .localVar { declared with
        declarators := declared.declarators.filter fun d => d.id != decl } }
  | _ => stmt

/-- The body without the declaration of a local variable of its own scope. A variable that shares its statement with others is removed alone. -/
def removeLocal? (body : Block) (decl : NodeId) : Option Block :=
  match body.scoped.find? fun entry => declares decl entry.2 with
  | none => none
  | some (path, stmt) =>
    if 1 < declaredCount stmt then body.updateStmt? path (withoutDeclarator decl)
    else
      match path.blockIndex? with
      | none => none
      | some (blockPath, index) => body.updateBlock? blockPath fun block => removeStmt? block index

/-- The method without a parameter or a local variable; nothing if it cannot be removed. -/
def removeDeclaration? (method : Method) (decl : NodeId) : Option Method :=
  if (method.param? decl).isSome then some (method.eraseParam decl)
  else
    match method.body with
    | none => none
    | some body => (removeLocal? body decl).map fun body => { method with body := some body }

/-- The method without a declaration that nothing uses any more; nothing if it is used or cannot be removed. -/
def pruneIfUnused? (method : Method) (decl : NodeId) : Option Method :=
  if (usagesOf method decl).isUnused then removeDeclaration? method decl else none

/-- The method without a declaration if nothing uses it, else the method as it is. -/
def prune (method : Method) (decl : NodeId) : Method :=
  (pruneIfUnused? method decl).getD method

end AdviceMigration.Advice
