import AdviceMigration.Source.Node

/-!
# Paths to statements

A statement of a method body is addressed by the steps that lead to it. Edits first collect the paths of the statements they are after and then work through them backwards: paths order like the statements stand in the text, so an edit never shifts a path that is still waiting.
-/

namespace AdviceMigration.Source

inductive Step where
  /-- A statement of a block. -/
  | stmt (index : Nat)
  /-- The block of a statement in braces. -/
  | nested
  | thenBranch
  | elseBranch
  /-- The body of a loop, a labeled statement, a `try` or a `synchronized` statement. -/
  | body
  | catchBlock (index : Nat)
  | finallyBlock
  | caseBlock (index : Nat)
  deriving DecidableEq, Repr, Inhabited

/-- The steps from a method body to a statement or block in it. -/
abbrev StmtPath := List Step

namespace Step

/-- Place of a step among the steps that can stand at one point, and its index. -/
def rank : Step → Nat × Nat
  | stmt index => (0, index)
  | nested => (1, 0)
  | thenBranch => (2, 0)
  | elseBranch => (3, 0)
  | body => (4, 0)
  | catchBlock index => (5, index)
  | finallyBlock => (6, 0)
  | caseBlock index => (7, index)

def before (left right : Step) : Bool :=
  left.rank.1 < right.rank.1 || (left.rank.1 == right.rank.1 && left.rank.2 < right.rank.2)

end Step

namespace StmtPath

/-- Whether a path comes before another or is equal to it, step by step. -/
def le : StmtPath → StmtPath → Bool
  | [], _ => true
  | _ :: _, [] => false
  | left :: lefts, right :: rights => left.before right || (left == right && le lefts rights)

def isSorted : List StmtPath → Bool
  | [] => true
  | [_] => true
  | first :: second :: rest => le first second && isSorted (second :: rest)

/-- The path of the block a statement stands in and its index there; nothing for a statement that is itself a branch or body. -/
def blockIndex? (path : StmtPath) : Option (StmtPath × Nat) :=
  match path.getLast? with
  | some (.stmt index) => some (path.dropLast, index)
  | _ => none

end StmtPath

/-- What a path leads to. -/
inductive Focus where
  | block (block : Block)
  | stmt (stmt : Stmt)

namespace Focus

def child? : Focus → Step → Option Focus
  | .block outer, .stmt index => outer.stmts[index]?.map .stmt
  | .block _, _ => none
  | .stmt outer, step =>
    match outer.kind, step with
    | .block body, .nested => some (.block body)
    | .ifElse _ yes _, .thenBranch => some (.stmt yes)
    | .ifElse _ _ (some no), .elseBranch => some (.stmt no)
    | .whileLoop _ body, .body => some (.stmt body)
    | .doWhile body _, .body => some (.stmt body)
    | .forLoop _ _ _ body, .body => some (.stmt body)
    | .forEach _ _ body, .body => some (.stmt body)
    | .labeled _ body, .body => some (.stmt body)
    | .tryBlock _ body _ _, .body => some (.block body)
    | .sync _ body, .body => some (.block body)
    | .tryBlock _ _ catches _, .catchBlock index =>
      catches[index]?.map fun clause => .block clause.body
    | .tryBlock _ _ _ (some finallyBody), .finallyBlock => some (.block finallyBody)
    | .switch _ cases, .caseBlock index => cases[index]?.map fun case => .block case.body
    | _, _ => none

/-- The statement kind with another part in the place one step leads to. -/
def replaceIn (kind : StmtKind) (step : Step) (part : Focus) : StmtKind :=
  match kind, step, part with
  | .block _, .nested, .block inner => .block inner
  | .ifElse cond _ no, .thenBranch, .stmt inner => .ifElse cond inner no
  | .ifElse cond yes (some _), .elseBranch, .stmt inner => .ifElse cond yes (some inner)
  | .whileLoop cond _, .body, .stmt inner => .whileLoop cond inner
  | .doWhile _ cond, .body, .stmt inner => .doWhile inner cond
  | .forLoop init cond update _, .body, .stmt inner => .forLoop init cond update inner
  | .forEach var iterable _, .body, .stmt inner => .forEach var iterable inner
  | .labeled label _, .body, .stmt inner => .labeled label inner
  | .tryBlock resources _ catches finallyBody, .body, .block inner =>
    .tryBlock resources inner catches finallyBody
  | .sync lock _, .body, .block inner => .sync lock inner
  | .tryBlock resources body catches finallyBody, .catchBlock index, .block inner =>
    .tryBlock resources body (catches.modify index fun clause => { clause with body := inner })
      finallyBody
  | .tryBlock resources body catches (some _), .finallyBlock, .block inner =>
    .tryBlock resources body catches (some inner)
  | .switch selector cases, .caseBlock index, .block inner =>
    .switch selector (cases.modify index fun case => { case with body := inner })
  | kind, _, _ => kind

def withChild (focus : Focus) (step : Step) (part : Focus) : Focus :=
  match focus, step, part with
  | .block outer, .stmt index, .stmt inner =>
    .block { outer with stmts := outer.stmts.set index inner }
  | .block outer, _, _ => .block outer
  | .stmt outer, step, part => .stmt { outer with kind := replaceIn outer.kind step part }

def at? (focus : Focus) : StmtPath → Option Focus
  | [] => some focus
  | step :: rest =>
    match focus.child? step with
    | some child => child.at? rest
    | none => none

/-- Changes what a path leads to; nothing if it leads nowhere or the change is refused. -/
def update? (change : Focus → Option Focus) (focus : Focus) : StmtPath → Option Focus
  | [] => change focus
  | step :: rest =>
    match focus.child? step with
    | some child => (child.update? change rest).map (focus.withChild step)
    | none => none

end Focus

namespace Block

def stmtAt? (block : Block) (path : StmtPath) : Option Stmt :=
  match (Focus.block block).at? path with
  | some (.stmt stmt) => some stmt
  | _ => none

/-- The block a path leads to; the empty path leads to the block itself. -/
def blockAt? (block : Block) (path : StmtPath) : Option Block :=
  match (Focus.block block).at? path with
  | some (.block inner) => some inner
  | _ => none

def updateStmt? (block : Block) (path : StmtPath) (change : Stmt → Stmt) : Option Block :=
  let changed := (Focus.block block).update? (fun focus =>
    match focus with
    | .stmt stmt => some (.stmt (change stmt))
    | .block _ => none) path
  match changed with
  | some (.block block) => some block
  | _ => none

def updateBlock? (block : Block) (path : StmtPath) (change : Block → Option Block) :
    Option Block :=
  let changed := (Focus.block block).update? (fun focus =>
    match focus with
    | .block inner => (change inner).map .block
    | .stmt _ => none) path
  match changed with
  | some (.block block) => some block
  | _ => none

end Block

/-! ### All statements of a body -/

mutual
/-- A statement and the statements in it, each with its path, in document order. -/
def Stmt.walk : Stmt → StmtPath → List (StmtPath × Stmt)
  | ⟨layout, trailing, kind⟩, path => (path, ⟨layout, trailing, kind⟩) :: kind.walk path

/-- The statements in a statement. Expressions and local classes are not entered: a `return` in a lambda expression or class body is not one of the method. -/
def StmtKind.walk : StmtKind → StmtPath → List (StmtPath × Stmt)
  | .block body, path => body.walk (path ++ [.nested])
  | .ifElse _ yes none, path => yes.walk (path ++ [.thenBranch])
  | .ifElse _ yes (some no), path =>
    yes.walk (path ++ [.thenBranch]) ++ no.walk (path ++ [.elseBranch])
  | .whileLoop _ body, path => body.walk (path ++ [.body])
  | .doWhile body _, path => body.walk (path ++ [.body])
  | .forLoop _ _ _ body, path => body.walk (path ++ [.body])
  | .forEach _ _ body, path => body.walk (path ++ [.body])
  | .labeled _ body, path => body.walk (path ++ [.body])
  | .tryBlock _ body catches finallyBody, path =>
    body.walk (path ++ [.body]) ++ CatchClause.walkList catches path 0 ++
      match finallyBody with
      | some finallyBody => finallyBody.walk (path ++ [.finallyBlock])
      | none => []
  | .sync _ body, path => body.walk (path ++ [.body])
  | .switch _ cases, path => SwitchCase.walkList cases path 0
  | .localVar _, _ => []
  | .localClass _, _ => []
  | .expr _, _ => []
  | .ret _, _ => []
  | .throw _, _ => []
  | .breakTo _, _ => []
  | .continueTo _, _ => []
  | .assertion _ _, _ => []
  | .empty, _ => []

def Block.walk : Block → StmtPath → List (StmtPath × Stmt)
  | ⟨stmts, _, _⟩, path => Stmt.walkList stmts path 0

def Stmt.walkList : List Stmt → StmtPath → Nat → List (StmtPath × Stmt)
  | [], _, _ => []
  | stmt :: rest, path, index =>
    stmt.walk (path ++ [.stmt index]) ++ Stmt.walkList rest path (index + 1)

def CatchClause.walkList : List CatchClause → StmtPath → Nat → List (StmtPath × Stmt)
  | [], _, _ => []
  | ⟨_, _, _, _, _, body⟩ :: rest, path, index =>
    body.walk (path ++ [.catchBlock index]) ++ CatchClause.walkList rest path (index + 1)

def SwitchCase.walkList : List SwitchCase → StmtPath → Nat → List (StmtPath × Stmt)
  | [], _, _ => []
  | ⟨_, _, _, _, body⟩ :: rest, path, index =>
    body.walk (path ++ [.caseBlock index]) ++ SwitchCase.walkList rest path (index + 1)
end

/-- The statements of a body's own scope with their paths, in document order. -/
def Block.scoped (body : Block) : List (StmtPath × Stmt) := body.walk []

/-- The paths of the `return` statements of a body's own scope, in document order. -/
def Block.returnPaths (body : Block) : List StmtPath :=
  (body.scoped.filter fun entry => entry.2.isReturn).map (·.1)

end AdviceMigration.Source
