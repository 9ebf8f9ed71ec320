import AdviceMigration.Source.Completion

/-!
# How statements may end

Which ends a statement may come to if nothing is known of its values. Any condition may hold or fail, except that one written `true` holds; any statement may throw; a switch may enter any of its cases or none; a loop over a collection may stop before any round. What `break`, `continue`, labels and `finally` blocks make of an end is as it is.

Control that gets to the end of a statement is seen by `Stmt.canComplete`, and a plain `break` out of it by `Stmt.breaksOut`.
-/

namespace AdviceMigration.Execution

open AdviceMigration.Source

/-- How a statement ends, without its values. -/
inductive Ending where
  | normal
  | broke (label : Option String)
  | continued (label : Option String)
  | returned
  | threw
  deriving DecidableEq

/-- The ends that a statement may come to. -/
abbrev Endings := Ending → Prop

namespace Endings

/-- The given ends and an exception. -/
def orThrow (endings : Endings) : Endings := fun ending => ending = .threw ∨ endings ending

/-- What goes on after a normal end. -/
def andThen (first second : Endings) : Endings := fun ending =>
  (first .normal ∧ second ending) ∨ (ending ≠ .normal ∧ first ending)

/-- What a condition decides. -/
def choose (cond : Expr) (yes no : Endings) : Endings := fun ending =>
  yes ending ∨ (cond.isTrue = false ∧ no ending)

/-- What becomes of a round of a loop with the given labels: `continue` ends it like its end. -/
def resume (labels : List String) (round : Endings) : Endings
  | .normal => round .normal ∨ round (.continued none) ∨
      ∃ label ∈ labels, round (.continued (some label))
  | .continued none => False
  | .continued (some label) => label ∉ labels ∧ round (.continued (some label))
  | ending => round ending

/-- What becomes of a loop or a switch: a plain `break` ends it. -/
def leave (inner : Endings) : Endings
  | .normal => inner .normal ∨ inner (.broke none)
  | .broke none => False
  | ending => inner ending

/-- What becomes of a statement with a label: a `break` to it ends it. -/
def leaveLabel (label : String) (inner : Endings) : Endings
  | .normal => inner .normal ∨ inner (.broke (some label))
  | .broke (some target) => target ≠ label ∧ inner (.broke (some target))
  | ending => inner ending

/-- What becomes of rounds that are repeated for as long as they end normally. -/
inductive Repeated (round : Endings) : Endings where
  | last {ending : Ending} : ending ≠ .normal → round ending → Repeated round ending
  | again {ending : Ending} : round .normal → Repeated round ending → Repeated round ending

/-- What becomes of a loop whose rounds go on while a condition holds. -/
def loopWhile (cond : Expr) (round : Endings) : Endings :=
  leave (Repeated (choose cond round (· = .broke none)))

/-- What handles an exception. -/
def handling (guarded handler : Endings) : Endings := fun ending =>
  guarded ending ∨ (guarded .threw ∧ handler ending)

/-- What a `finally` block makes of an end: it stays unless the block does not end normally. -/
def finish (guarded finallyBlock : Endings) : Endings := fun ending =>
  (guarded ending ∧ finallyBlock .normal) ∨
    (ending ≠ .normal ∧ finallyBlock ending ∧ ∃ first, guarded first)

variable {round : Endings} {ending : Ending}

theorem Repeated.of_round (h : Repeated round ending) : ending ≠ .normal ∧ round ending := by
  induction h with
  | last hne h => exact ⟨hne, h⟩
  | again _ _ ih => exact ih

/-- A loop ends normally only by a plain `break` out of one of its rounds. -/
theorem of_leave_repeated (h : leave (Repeated round) .normal) : round (.broke none) := by
  rcases h with h | h
  · exact absurd rfl h.of_round.1
  · exact h.of_round.2

theorem of_loopWhile {cond : Expr} (h : loopWhile cond round .normal) :
    cond.isTrue = false ∨ round (.broke none) := by
  rcases of_leave_repeated h with h | ⟨hcond, -⟩
  · exact .inr h
  · exact .inl hcond

end Endings

end AdviceMigration.Execution

namespace AdviceMigration.Source

open AdviceMigration.Execution AdviceMigration.Execution.Endings

mutual
/-- How a statement may end: it may always throw. -/
def Stmt.MayEnd : Stmt → List String → Endings
  | ⟨_, _, kind⟩, labels => (kind.MayEnd labels).orThrow

/-- How a statement with labels in front of it may end, if it does not throw by itself. -/
def StmtKind.MayEnd : StmtKind → (labels : List String) → Endings
  | .block body, _ => body.MayEnd
  | .sync _ body, _ => body.MayEnd
  | .ret _, _ => (· = .returned)
  | .throw _, _ => (· = .threw)
  | .breakTo label, _ => (· = .broke label)
  | .continueTo label, _ => (· = .continued label)
  | .ifElse cond yes none, _ => choose cond (yes.MayEnd []) (· = .normal)
  | .ifElse cond yes (some no), _ => choose cond (yes.MayEnd []) (no.MayEnd [])
  | .whileLoop cond body, labels => loopWhile cond (resume labels (body.MayEnd []))
  | .doWhile body cond, labels =>
    leave (Repeated (andThen (resume labels (body.MayEnd []))
      (choose cond (· = .normal) (· = .broke none))))
  | .forLoop _ none _ body, labels => leave (Repeated (resume labels (body.MayEnd [])))
  | .forLoop _ (some cond) _ body, labels => loopWhile cond (resume labels (body.MayEnd []))
  | .forEach _ _ body, labels =>
    leave (Repeated fun ending => resume labels (body.MayEnd []) ending ∨ ending = .broke none)
  | .tryBlock resources body catches none, _ =>
    handling (fun ending => body.MayEnd ending ∨ (resources ≠ [] ∧ ending = .threw))
      (CatchClause.MayEnd catches)
  | .tryBlock resources body catches (some finallyBody), _ =>
    finish (handling (fun ending => body.MayEnd ending ∨ (resources ≠ [] ∧ ending = .threw))
      (CatchClause.MayEnd catches)) finallyBody.MayEnd
  | .switch _ cases, _ => fun ending =>
    ending = .normal ∨ leave (fun inner => ∃ entry, SwitchCase.MayEnd cases entry inner) ending
  | .labeled label body, labels => leaveLabel label (body.MayEnd (label :: labels))
  | .localVar _, _ => (· = .normal)
  | .localClass _, _ => (· = .normal)
  | .expr _, _ => (· = .normal)
  | .assertion _ _, _ => (· = .normal)
  | .empty, _ => (· = .normal)

/-- How a block may end. -/
def Block.MayEnd : Block → Endings
  | ⟨stmts, _, _⟩ => Stmt.MayEndAll stmts

/-- How statements in a row may end. -/
def Stmt.MayEndAll : List Stmt → Endings
  | [] => (· = .normal)
  | stmt :: rest => andThen (stmt.MayEnd []) (Stmt.MayEndAll rest)

/-- How `catch` blocks may end, any of which may be the one that handles an exception. -/
def CatchClause.MayEnd : List CatchClause → Endings
  | [] => fun _ => False
  | ⟨_, _, _, _, _, body⟩ :: rest => fun ending => body.MayEnd ending ∨ CatchClause.MayEnd rest ending

/-- How the cases of a switch may end from the given one on. Only a case with a colon goes on to the next. -/
def SwitchCase.MayEnd : List SwitchCase → (entry : Nat) → Endings
  | [], _ => (· = .normal)
  | _ :: rest, entry + 1 => SwitchCase.MayEnd rest entry
  | ⟨_, _, _, form, body⟩ :: rest, 0 =>
    andThen body.MayEnd fun ending =>
      if form == .colon then SwitchCase.MayEnd rest 0 ending else ending = .normal
end

/-! ### Breaks -/

mutual
theorem Stmt.breaksOut_of_mayEnd : (stmt : Stmt) → (labels : List String) →
    stmt.MayEnd labels (.broke none) → stmt.breaksOut false = true
  | ⟨_, _, kind⟩, labels, .inr h => kind.breaksOut_of_mayEnd labels h

theorem StmtKind.breaksOut_of_mayEnd : (kind : StmtKind) → (labels : List String) →
    kind.MayEnd labels (.broke none) → kind.breaksOut false = true
  | .block body, _, h => body.breaksOut_of_mayEnd h
  | .sync _ body, _, h => body.breaksOut_of_mayEnd h
  | .breakTo label, _, h => by
    cases (h : Ending.broke none = Ending.broke label)
    rfl
  | .ifElse _ yes none, _, h => by
    rcases h with h | ⟨-, h⟩
    · exact yes.breaksOut_of_mayEnd [] h
    · cases h
  | .ifElse _ yes (some no), _, h => by
    rw [StmtKind.breaksOut, Bool.or_eq_true]
    rcases h with h | ⟨-, h⟩
    · exact .inl (yes.breaksOut_of_mayEnd [] h)
    · exact .inr (no.breaksOut_of_mayEnd [] h)
  | .tryBlock resources body catches none, _, h => by
    rw [StmtKind.breaksOut, Bool.or_eq_true]
    rcases h with (h | ⟨-, h⟩) | ⟨-, h⟩
    · exact .inl (body.breaksOut_of_mayEnd h)
    · cases h
    · exact .inr (CatchClause.breaksOut_of_mayEnd catches h)
  | .tryBlock resources body catches (some finallyBody), _, h => by
    rw [StmtKind.breaksOut, Bool.or_eq_true, Bool.or_eq_true]
    rcases h with ⟨(h | ⟨-, h⟩) | ⟨-, h⟩, -⟩ | ⟨-, h, -⟩
    · exact .inl (.inl (body.breaksOut_of_mayEnd h))
    · cases h
    · exact .inl (.inr (CatchClause.breaksOut_of_mayEnd catches h))
    · exact .inr (finallyBody.breaksOut_of_mayEnd h)
  | .labeled label body, labels, h => body.breaksOut_of_mayEnd (label :: labels) h
  | .whileLoop _ _, _, h => h.elim
  | .doWhile _ _, _, h => h.elim
  | .forLoop _ none _ _, _, h => h.elim
  | .forLoop _ (some _) _ _, _, h => h.elim
  | .forEach _ _ _, _, h => h.elim
  | .switch _ _, _, .inr h => h.elim

theorem Block.breaksOut_of_mayEnd : (body : Block) → body.MayEnd (.broke none) →
    body.breaksOut false = true
  | ⟨stmts, _, _⟩, h => Stmt.anyBreaksOut_of_mayEnd stmts h

theorem Stmt.anyBreaksOut_of_mayEnd : (stmts : List Stmt) →
    Stmt.MayEndAll stmts (.broke none) → Stmt.anyBreaksOut stmts false = true
  | stmt :: rest, h => by
    rw [Stmt.anyBreaksOut, Bool.or_eq_true]
    rcases h with ⟨-, h⟩ | ⟨-, h⟩
    · exact .inr (Stmt.anyBreaksOut_of_mayEnd rest h)
    · exact .inl (stmt.breaksOut_of_mayEnd [] h)

theorem CatchClause.breaksOut_of_mayEnd : (clauses : List CatchClause) →
    CatchClause.MayEnd clauses (.broke none) → CatchClause.anyBreaksOut clauses false = true
  | ⟨_, _, _, _, _, body⟩ :: rest, h => by
    rw [CatchClause.anyBreaksOut, Bool.or_eq_true]
    exact h.imp body.breaksOut_of_mayEnd (CatchClause.breaksOut_of_mayEnd rest)
end

/-! ### Running off the end -/

mutual
theorem Stmt.canComplete_of_mayEnd : (stmt : Stmt) → (labels : List String) →
    stmt.MayEnd labels .normal → stmt.canComplete = true
  | ⟨_, _, kind⟩, labels, .inr h => kind.canComplete_of_mayEnd labels h

theorem StmtKind.canComplete_of_mayEnd : (kind : StmtKind) → (labels : List String) →
    kind.MayEnd labels .normal → kind.canComplete = true
  | .block body, _, h => body.canComplete_of_mayEnd h
  | .sync _ body, _, h => body.canComplete_of_mayEnd h
  | .ifElse _ _ none, _, _ => rfl
  | .ifElse _ yes (some no), _, h => by
    rw [StmtKind.canComplete, Bool.or_eq_true]
    rcases h with h | ⟨-, h⟩
    · exact .inl (yes.canComplete_of_mayEnd [] h)
    · exact .inr (no.canComplete_of_mayEnd [] h)
  | .whileLoop cond body, _, h => by
    rw [StmtKind.canComplete, Bool.or_eq_true, Bool.not_eq_true']
    exact (of_loopWhile h).imp_right (body.breaksOut_of_mayEnd [])
  | .doWhile body cond, _, h => by
    rw [StmtKind.canComplete, Bool.or_eq_true, Bool.not_eq_true']
    rcases of_leave_repeated h with ⟨-, h | ⟨hcond, -⟩⟩ | ⟨-, h⟩
    · cases h
    · exact .inl hcond
    · exact .inr (body.breaksOut_of_mayEnd [] h)
  | .forLoop _ none _ body, labels, h =>
    body.breaksOut_of_mayEnd [] (@of_leave_repeated (resume labels (body.MayEnd [])) h)
  | .forLoop _ (some cond) _ body, _, h => by
    rw [StmtKind.canComplete, Bool.or_eq_true, Bool.not_eq_true']
    exact (of_loopWhile h).imp_right (body.breaksOut_of_mayEnd [])
  | .tryBlock _ body catches none, _, h => by
    rw [StmtKind.canComplete, Bool.or_eq_true]
    rcases h with (h | ⟨-, h⟩) | ⟨-, h⟩
    · exact .inl (body.canComplete_of_mayEnd h)
    · cases h
    · exact .inr (CatchClause.canComplete_of_mayEnd catches h)
  | .tryBlock _ body catches (some finallyBody), _, h => by
    rw [StmtKind.canComplete, Bool.and_eq_true, Bool.or_eq_true]
    rcases h with ⟨h, hfinally⟩ | ⟨hne, -⟩
    · refine ⟨finallyBody.canComplete_of_mayEnd hfinally, ?_⟩
      rcases h with (h | ⟨-, h⟩) | ⟨-, h⟩
      · exact .inl (body.canComplete_of_mayEnd h)
      · cases h
      · exact .inr (CatchClause.canComplete_of_mayEnd catches h)
    · exact absurd rfl hne
  | .forEach _ _ _, _, _ => rfl
  | .switch _ _, _, _ => rfl
  | .labeled _ _, _, _ => rfl
  | .localVar _, _, _ => rfl
  | .localClass _, _, _ => rfl
  | .expr _, _, _ => rfl
  | .assertion _ _, _, _ => rfl
  | .empty, _, _ => rfl

theorem Block.canComplete_of_mayEnd : (body : Block) → body.MayEnd .normal →
    body.canComplete = true
  | ⟨stmts, _, _⟩, h => Stmt.allCanComplete_of_mayEnd stmts h

theorem Stmt.allCanComplete_of_mayEnd : (stmts : List Stmt) → Stmt.MayEndAll stmts .normal →
    Stmt.allCanComplete stmts = true
  | [], _ => rfl
  | stmt :: rest, h => by
    rw [Stmt.allCanComplete, Bool.and_eq_true]
    rcases h with ⟨hstmt, hrest⟩ | ⟨hne, -⟩
    · exact ⟨stmt.canComplete_of_mayEnd [] hstmt, Stmt.allCanComplete_of_mayEnd rest hrest⟩
    · exact absurd rfl hne

theorem CatchClause.canComplete_of_mayEnd : (clauses : List CatchClause) →
    CatchClause.MayEnd clauses .normal → CatchClause.anyCanComplete clauses = true
  | ⟨_, _, _, _, _, body⟩ :: rest, h => by
    rw [CatchClause.anyCanComplete, Bool.or_eq_true]
    exact h.imp body.canComplete_of_mayEnd (CatchClause.canComplete_of_mayEnd rest)
end

end AdviceMigration.Source
