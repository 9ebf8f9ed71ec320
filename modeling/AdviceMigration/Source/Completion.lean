import AdviceMigration.Source.Node

/-!
# Completion

Whether control can run off the end of a block. Switches, labeled statements and loops with a condition are taken to complete; a loop that runs forever completes only through a `break`.
-/

namespace AdviceMigration.Source

/-- Whether an expression is the literal `true`, in parentheses or not. -/
def Expr.isTrue : Expr → Bool
  | .literal ⟨kind, text⟩ => kind == .bool && text == "true"
  | .paren inner => inner.isTrue
  | _ => false

/-! ### Breaking out of a loop -/

mutual
/-- Whether a `break` in a statement can leave the loop the statement belongs to. -/
def Stmt.breaksOut : Stmt → Bool → Bool
  | ⟨_, _, kind⟩, nested => kind.breaksOut nested

/-- Whether a `break` can leave the loop around a statement. A plain one stays in a nested loop or switch; one with a label is taken to leave. -/
def StmtKind.breaksOut : StmtKind → (nested : Bool) → Bool
  | .breakTo none, nested => !nested
  | .breakTo (some _), _ => true
  | .block body, nested => body.breaksOut nested
  | .sync _ body, nested => body.breaksOut nested
  | .ifElse _ yes none, nested => yes.breaksOut nested
  | .ifElse _ yes (some no), nested => yes.breaksOut nested || no.breaksOut nested
  | .labeled _ body, nested => body.breaksOut nested
  | .tryBlock _ body catches none, nested =>
    body.breaksOut nested || CatchClause.anyBreaksOut catches nested
  | .tryBlock _ body catches (some finallyBody), nested =>
    body.breaksOut nested || CatchClause.anyBreaksOut catches nested || finallyBody.breaksOut nested
  | .whileLoop _ body, _ => body.breaksOut true
  | .doWhile body _, _ => body.breaksOut true
  | .forLoop _ _ _ body, _ => body.breaksOut true
  | .forEach _ _ body, _ => body.breaksOut true
  | .switch _ cases, _ => SwitchCase.anyBreaksOut cases true
  | .localVar _, _ => false
  | .localClass _, _ => false
  | .expr _, _ => false
  | .ret _, _ => false
  | .throw _, _ => false
  | .continueTo _, _ => false
  | .assertion _ _, _ => false
  | .empty, _ => false

def Block.breaksOut : Block → Bool → Bool
  | ⟨stmts, _, _⟩, nested => Stmt.anyBreaksOut stmts nested

def Stmt.anyBreaksOut : List Stmt → Bool → Bool
  | [], _ => false
  | stmt :: rest, nested => stmt.breaksOut nested || Stmt.anyBreaksOut rest nested

def CatchClause.anyBreaksOut : List CatchClause → Bool → Bool
  | [], _ => false
  | ⟨_, _, _, _, _, body⟩ :: rest, nested =>
    body.breaksOut nested || CatchClause.anyBreaksOut rest nested

def SwitchCase.anyBreaksOut : List SwitchCase → Bool → Bool
  | [], _ => false
  | ⟨_, _, _, _, body⟩ :: rest, nested =>
    body.breaksOut nested || SwitchCase.anyBreaksOut rest nested
end

/-! ### Running off the end -/

mutual
/-- Whether control can go on after a statement. -/
def Stmt.canComplete : Stmt → Bool
  | ⟨_, _, kind⟩ => kind.canComplete

def StmtKind.canComplete : StmtKind → Bool
  | .ret _ => false
  | .throw _ => false
  | .breakTo _ => false
  | .continueTo _ => false
  | .block body => body.canComplete
  | .sync _ body => body.canComplete
  | .ifElse _ _ none => true
  | .ifElse _ yes (some no) => yes.canComplete || no.canComplete
  | .whileLoop cond body => !cond.isTrue || body.breaksOut false
  | .doWhile body cond => !cond.isTrue || body.breaksOut false
  | .forLoop _ none _ body => body.breaksOut false
  | .forLoop _ (some cond) _ body => !cond.isTrue || body.breaksOut false
  | .tryBlock _ body catches none => body.canComplete || CatchClause.anyCanComplete catches
  | .tryBlock _ body catches (some finallyBody) =>
    finallyBody.canComplete && (body.canComplete || CatchClause.anyCanComplete catches)
  | .localVar _ => true
  | .localClass _ => true
  | .expr _ => true
  | .forEach _ _ _ => true
  | .switch _ _ => true
  | .labeled _ _ => true
  | .assertion _ _ => true
  | .empty => true

/-- Whether control can run off the end of a block: it goes on after each of its statements. -/
def Block.canComplete : Block → Bool
  | ⟨stmts, _, _⟩ => Stmt.allCanComplete stmts

def Stmt.allCanComplete : List Stmt → Bool
  | [] => true
  | stmt :: rest => stmt.canComplete && Stmt.allCanComplete rest

def CatchClause.anyCanComplete : List CatchClause → Bool
  | [] => false
  | ⟨_, _, _, _, _, body⟩ :: rest => body.canComplete || CatchClause.anyCanComplete rest
end

end AdviceMigration.Source
