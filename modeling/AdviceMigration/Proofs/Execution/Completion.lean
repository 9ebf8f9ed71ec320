import AdviceMigration.Proofs.Execution.Endings
import AdviceMigration.Proofs.Execution.Machine

/-!
# Runs end as statements may end

Whatever the machine is, a statement that runs to an end comes to one that it may come to. Control that runs off the end of a block is therefore seen by `Block.canComplete`.
-/

namespace AdviceMigration.Execution

open AdviceMigration.Source

/-- The end of a statement without its values. -/
def Completion.ending {Value : Type} : Completion Value → Ending
  | .normal => .normal
  | .broke label => .broke label
  | .continued label => .continued label
  | .returned _ => .returned
  | .threw _ => .threw

namespace Machine

variable {machine : Machine}

/-- Whether a statement comes to one of the given ends, if to any. -/
def Within (outcome : machine.Outcome) (endings : Endings) : Prop :=
  ∀ completion state, outcome = some (completion, state) → endings completion.ending

variable {outcome : machine.Outcome} {endings : Endings} {state : machine.State}

namespace Within

theorem ends {completion : Completion machine.Value} (h : endings completion.ending) :
    Within (some (completion, state)) endings := by
  rintro _ _ ⟨⟩
  exact h

theorem stuck : Within (none : machine.Outcome) endings := nofun

theorem normal : @Within machine (some (.normal, state)) (Endings.orThrow (· = .normal)) :=
  ends (.inr rfl)

theorem left : @Within machine (some (.broke none, state))
    (Endings.orThrow (· = .broke none)) :=
  ends (.inr rfl)

theorem orThrow (h : Within outcome endings) : Within outcome endings.orThrow :=
  fun completion state heq => .inr (h completion state heq)

theorem andThen {first second : Endings} {next : machine.State → machine.Outcome}
    (h : Within outcome first) (hnext : ∀ state, Within (next state) second) :
    Within (Machine.andThen outcome next) (first.andThen second) := by
  unfold Machine.andThen
  split
  next =>
    intro completion final heq
    exact .inl ⟨h _ _ rfl, hnext _ completion final heq⟩
  next hother =>
    intro completion final heq
    refine .inr ⟨?_, h completion final heq⟩
    cases completion with
    | normal => exact absurd heq (hother final)
    | _ => nofun

theorem andThen_orThrow {first second : Endings} {next : machine.State → machine.Outcome}
    (h : Within outcome first) (hnext : ∀ state, Within (next state) second.orThrow) :
    Within (Machine.andThen outcome next) (first.andThen second).orThrow := by
  intro completion final heq
  rcases h.andThen hnext completion final heq with ⟨hfirst, hthrew | hsecond⟩ | hfirst
  · exact .inl hthrew
  · exact .inr (.inl ⟨hfirst, hsecond⟩)
  · exact .inr (.inr hfirst)

theorem withValue {evaluated : machine.Evaluated}
    {next : machine.Value → machine.State → machine.Outcome}
    (h : ∀ value state, Within (next value state) endings.orThrow) :
    Within (Machine.withValue evaluated next) endings.orThrow := by
  unfold Machine.withValue
  split
  · exact h _ _
  · exact ends (.inl rfl)
  · exact stuck

theorem resume {labels : List String} (h : Within outcome endings) :
    Within (Machine.resume labels outcome) (endings.resume labels) := by
  unfold Machine.resume
  split
  next => exact ends (.inr (.inl (h _ _ rfl)))
  next label state =>
    have hcontinued := h _ _ rfl
    split
    next hlabel => exact ends (.inr (.inr ⟨label, List.contains_iff_mem.1 hlabel, hcontinued⟩))
    next hlabel => exact ends ⟨fun hmem => hlabel (List.contains_iff_mem.2 hmem), hcontinued⟩
  next hplain hlabeled =>
    intro completion final heq
    have hending := h completion final heq
    match completion, heq with
    | .normal, _ => exact .inl hending
    | .broke _, _ => exact hending
    | .continued none, heq => exact absurd heq (hplain final)
    | .continued (some label), heq => exact absurd heq (hlabeled label final)
    | .returned _, _ => exact hending
    | .threw _, _ => exact hending

theorem leave (h : Within outcome endings) : Within (Machine.leave outcome) endings.leave := by
  unfold Machine.leave
  split
  next => exact ends (.inr (h _ _ rfl))
  next hother =>
    intro completion final heq
    have hending := h completion final heq
    match completion, heq with
    | .normal, _ => exact .inl hending
    | .broke none, heq => exact absurd heq (hother final)
    | .broke (some _), _ => exact hending
    | .continued _, _ => exact hending
    | .returned _, _ => exact hending
    | .threw _, _ => exact hending

theorem leaveLabel {label : String} (h : Within outcome endings) :
    Within (Machine.leaveLabel label outcome) (endings.leaveLabel label) := by
  unfold Machine.leaveLabel
  split
  next target state =>
    have hbroke := h _ _ rfl
    split
    next htarget =>
      rw [beq_iff_eq] at htarget
      subst htarget
      exact ends (.inr hbroke)
    next htarget => exact ends ⟨by simpa using htarget, hbroke⟩
  next hother =>
    intro completion final heq
    have hending := h completion final heq
    match completion, heq with
    | .normal, _ => exact .inl hending
    | .broke none, _ => exact hending
    | .broke (some target), heq => exact absurd heq (hother target final)
    | .continued _, _ => exact hending
    | .returned _, _ => exact hending
    | .threw _, _ => exact hending

theorem repeatRound {round : machine.State → machine.Outcome}
    (h : ∀ state, Within (round state) endings) (rounds : Nat) (state : machine.State) :
    Within (Machine.repeatRound round rounds state) endings.Repeated := by
  induction rounds generalizing state with
  | zero => exact stuck
  | succ rounds ih =>
    intro completion final heq
    rcases (h state).andThen ih completion final heq with ⟨hnormal, hrest⟩ | ⟨hne, hlast⟩
    · exact .again hnormal hrest
    · exact .last hne hlast

/-- A loop whose rounds may also throw. -/
theorem loop {round : machine.State → machine.Outcome}
    (h : ∀ state, Within (round state) endings.orThrow) (rounds : Nat) (state : machine.State) :
    Within (Machine.leave (Machine.repeatRound round rounds state))
      (endings.Repeated.leave).orThrow := by
  have hrounds : Within (Machine.repeatRound round rounds state) endings.Repeated.orThrow := by
    intro completion final heq
    obtain ⟨hne, hthrew | hround⟩ := (repeatRound h rounds state completion final heq).of_round
    · exact .inl hthrew
    · exact .inr (.last hne hround)
  intro completion final heq
  have hleft := hrounds.leave completion final heq
  match completion, hleft with
  | .normal, .inl (.inr hleft) => exact .inr (.inl hleft)
  | .normal, .inr (.inr hleft) => exact .inr (.inr hleft)
  | .broke (some _), .inr hleft => exact .inr hleft
  | .continued _, .inr hleft => exact .inr hleft
  | .returned _, .inr hleft => exact .inr hleft
  | .threw _, _ => exact .inl rfl

/-- A condition that is written `true` holds. -/
theorem eval_of_isTrue : (cond : Expr) → cond.isTrue = true → ∀ state : machine.State,
    ∃ value, machine.eval cond state = some (.ok value, state) ∧ machine.isTrue value = true
  | .literal ⟨kind, text⟩, h, state => by
    simp only [Expr.isTrue, Bool.and_eq_true, beq_iff_eq] at h
    obtain ⟨rfl, rfl⟩ := h
    exact ⟨_, rfl, machine.isTrue_true⟩
  | .paren inner, h, state => eval_of_isTrue inner h state

theorem choose (cond : Expr) {yes no : Endings} {onTrue onFalse : machine.State → machine.Outcome}
    (hyes : ∀ state, Within (onTrue state) yes.orThrow)
    (hno : ∀ state, Within (onFalse state) no.orThrow) (state : machine.State) :
    Within (Machine.withValue (machine.eval cond state) fun value state =>
      if machine.isTrue value then onTrue state else onFalse state)
      (Endings.choose cond yes no).orThrow := by
  cases hcond : cond.isTrue with
  | true =>
    obtain ⟨value, heval, hvalue⟩ := eval_of_isTrue cond hcond state
    simp only [heval, Machine.withValue, hvalue, if_true]
    exact fun completion final heq => (hyes state completion final heq).imp_right .inl
  | false =>
    refine withValue fun value state => ?_
    split
    · exact fun completion final heq => (hyes state completion final heq).imp_right .inl
    · exact fun completion final heq =>
        (hno state completion final heq).imp_right fun hno => .inr ⟨hcond, hno⟩

theorem evalAll (exprs : List Expr) (state : machine.State) :
    Within (Machine.evalAll exprs state) (Endings.orThrow (· = .normal)) := by
  induction exprs generalizing state with
  | nil => exact ends (.inr rfl)
  | cons expr rest ih => exact withValue fun _ => ih

/-- What is evaluated at the end of a round comes to no other end than the round, if it does not throw. -/
theorem withUpdate (h : Within outcome endings) (update : List Expr) :
    Within (Machine.andThen outcome (Machine.evalAll update)) endings.orThrow := by
  intro completion final heq
  rcases h.andThen_orThrow (.evalAll update) completion final heq with
    hthrew | ⟨hnormal, hending⟩ | ⟨-, hending⟩
  · exact .inl hthrew
  · rw [hending]
    exact .inr hnormal
  · exact .inr hending

theorem declareAll (declarators : List Declarator) (state : machine.State) :
    Within (Machine.declareAll declarators state) (Endings.orThrow (· = .normal)) := by
  induction declarators generalizing state with
  | nil => exact ends (.inr rfl)
  | cons declarator rest ih =>
    obtain ⟨_, _, _, _ | init⟩ := declarator
    · exact ih state
    · exact withValue fun _ _ => ih _

theorem start (init : ForInit) (state : machine.State) :
    Within (Machine.start init state) (Endings.orThrow (· = .normal)) := by
  cases init with
  | decl decl => exact declareAll decl.declarators state
  | exprs values => exact evalAll values state

/-- What follows the start of a loop. -/
theorem afterStart {init : ForInit} {next : machine.State → machine.Outcome}
    (h : ∀ state, Within (next state) endings.orThrow) (state : machine.State) :
    Within (Machine.andThen (Machine.start init state) next) endings.orThrow := by
  intro completion final heq
  rcases (start init state).andThen h completion final heq with ⟨-, hnext⟩ | ⟨hne, hstart⟩
  · exact hnext
  · exact .inl (hstart.resolve_right hne)

theorem closing {resource : machine.Value} (h : Within outcome endings.orThrow) :
    Within (Machine.closing resource outcome) endings.orThrow := by
  unfold Machine.closing
  split
  · split
    · exact ends (h _ _ rfl)
    · split
      · exact ends (.inl rfl)
      · exact ends (.inl rfl)
    · exact stuck
  · exact stuck

theorem usingVars {next : machine.State → machine.Outcome}
    (h : ∀ state, Within (next state) endings.orThrow) (declarators : List Declarator)
    (state : machine.State) : Within (Machine.usingVars next declarators state) endings.orThrow := by
  induction declarators generalizing state with
  | nil => exact h state
  | cons declarator rest ih =>
    obtain ⟨_, _, _, _ | init⟩ := declarator
    · exact ih state
    · exact withValue fun _ _ => (ih _).closing

theorem usingAll_orThrow {next : machine.State → machine.Outcome}
    (h : ∀ state, Within (next state) endings.orThrow) (resources : List Resource)
    (state : machine.State) : Within (Machine.usingAll next resources state) endings.orThrow := by
  induction resources generalizing state with
  | nil => exact h state
  | cons resource rest ih =>
    cases resource with
    | decl decl => exact usingVars ih decl.declarators state
    | expr value => exact withValue fun _ _ => (ih _).closing

/-- Statements with resources may throw also if they themselves do not. -/
theorem usingAll {next : machine.State → machine.Outcome} (h : ∀ state, Within (next state) endings)
    (resources : List Resource) (state : machine.State) :
    Within (Machine.usingAll next resources state)
      fun ending => endings ending ∨ (resources ≠ [] ∧ ending = .threw) := by
  cases resources with
  | nil => exact fun completion final heq => .inl (h state completion final heq)
  | cons resource rest =>
    intro completion final heq
    rcases usingAll_orThrow (fun state => (h state).orThrow) _ state completion final heq with
      hthrew | hending
    · exact .inr ⟨List.cons_ne_nil _ _, hthrew⟩
    · exact .inl hending

theorem nextItem {collection : machine.Value} {name : String}
    {round : machine.State → machine.Outcome} (h : ∀ state, Within (round state) endings)
    (state : machine.State) :
    Within (Machine.nextItem collection name round state)
      (Endings.orThrow fun ending => endings ending ∨ ending = .broke none) := by
  unfold Machine.nextItem
  split
  · exact fun completion final heq => .inr (.inl (h _ completion final heq))
  · exact ends (.inr (.inr rfl))
  · exact ends (.inl rfl)
  · exact stuck

theorem handling {handler : machine.Value → machine.State → machine.Outcome} {handled : Endings}
    (h : Within outcome endings) (hhandler : ∀ thrown state, Within (handler thrown state)
      handled.orThrow) :
    Within (Machine.handling outcome handler) (endings.handling handled) := by
  unfold Machine.handling
  split
  · intro completion final heq
    have hthrew := h _ _ rfl
    rcases hhandler _ _ completion final heq with hrethrown | hhandled
    · rw [hrethrown]
      exact .inl hthrew
    · exact .inr ⟨hthrew, hhandled⟩
  · exact fun completion final heq => .inl (h completion final heq)

theorem finish {finallyBlock : machine.State → machine.Outcome} {last : Endings}
    (h : Within outcome endings) (hfinally : ∀ state, Within (finallyBlock state) last) :
    Within (Machine.finish outcome finallyBlock) (endings.finish last) := by
  unfold Machine.finish
  split
  next first middle =>
    have hfirst := h _ _ rfl
    split
    next final hrun => exact ends (.inl ⟨hfirst, hfinally middle _ _ hrun⟩)
    next hother =>
      intro completion final heq
      refine .inr ⟨?_, hfinally middle completion final heq, _, hfirst⟩
      cases completion with
      | normal => exact absurd heq (hother final)
      | _ => nofun
  next => exact stuck

theorem check (cond : Expr) (message : Option Expr) (state : machine.State) :
    Within (Machine.check cond message state) (Endings.orThrow (· = .normal)) := by
  unfold Machine.check
  split
  · refine withValue fun value state => ?_
    split
    · exact ends (.inr rfl)
    · split
      · exact ends (.inl rfl)
      · exact withValue fun _ _ => ends (.inl rfl)
  · exact ends (.inr rfl)

end Within

end Machine

end AdviceMigration.Execution

namespace AdviceMigration.Source

open AdviceMigration.Execution AdviceMigration.Execution.Machine

variable {machine : Machine} {rounds : Nat}

mutual
theorem Stmt.within_mayEnd : (stmt : Stmt) → (labels : List String) → (state : machine.State) →
    Within (stmt.run machine rounds labels state) (stmt.MayEnd labels)
  | ⟨_, _, kind⟩, labels, state => kind.within_mayEnd labels state

theorem StmtKind.within_mayEnd : (kind : StmtKind) → (labels : List String) →
    (state : machine.State) →
    Within (kind.run machine rounds labels state) (kind.MayEnd labels).orThrow
  | .block body, _, state => (body.within_mayEnd state).orThrow
  | .localVar decl, _, state => .declareAll decl.declarators state
  | .localClass _, _, _ => .ends (.inr rfl)
  | .expr _, _, _ => .withValue fun _ _ => .ends (.inr rfl)
  | .ret none, _, _ => .ends (.inr rfl)
  | .ret (some _), _, _ => .withValue fun _ _ => .ends (.inr rfl)
  | .ifElse cond yes none, _, state =>
    .choose cond (fun state => (yes.within_mayEnd [] state).orThrow) (fun _ => .normal) state
  | .ifElse cond yes (some no), _, state =>
    .choose cond (fun state => (yes.within_mayEnd [] state).orThrow)
      (fun state => (no.within_mayEnd [] state).orThrow) state
  | .whileLoop cond body, _, state =>
    .loop (.choose cond (fun state => (body.within_mayEnd [] state).resume.orThrow)
      fun _ => .left) rounds state
  | .doWhile body cond, _, state =>
    .loop (fun state => (body.within_mayEnd [] state).resume.andThen_orThrow
      (.choose cond (fun _ => .normal) fun _ => .left)) rounds state
  | .forLoop _ none update body, _, state =>
    .afterStart (.loop (fun state => (body.within_mayEnd [] state).resume.withUpdate update) rounds) state
  | .forLoop _ (some cond) update body, _, state =>
    .afterStart (.loop (.choose cond
      (fun state => (body.within_mayEnd [] state).resume.withUpdate update) fun _ => .left) rounds) state
  | .forEach ⟨_, _, _, _, _⟩ _ body, _, _ =>
    .withValue fun _ => .loop (.nextItem fun state => (body.within_mayEnd [] state).resume) rounds
  | .tryBlock resources body catches none, _, state =>
    ((Within.usingAll body.within_mayEnd resources state).handling
      (CatchClause.within_mayEnd catches)).orThrow
  | .tryBlock resources body catches (some finallyBody), _, state =>
    (((Within.usingAll body.within_mayEnd resources state).handling
      (CatchClause.within_mayEnd catches)).finish finallyBody.within_mayEnd).orThrow
  | .throw _, _, _ => .withValue fun _ _ => .ends (.inl rfl)
  | .breakTo _, _, _ => .ends (.inr rfl)
  | .continueTo _, _, _ => .ends (.inr rfl)
  | .switch _ cases, _, _ => by
    refine .withValue fun value state => ?_
    split
    next index _ =>
      intro completion final heq
      have hcases : Within (SwitchCase.runFrom machine rounds cases index state)
          fun ending => ∃ entry, SwitchCase.MayEnd cases entry ending :=
        fun completion final heq =>
          ⟨index, SwitchCase.within_mayEnd cases index state completion final heq⟩
      exact .inr (.inr (hcases.leave completion final heq))
    next => exact .ends (.inr (.inl rfl))
  | .sync _ body, _, _ => .withValue fun _ state => (body.within_mayEnd state).orThrow
  | .labeled label body, labels, state =>
    (body.within_mayEnd (label :: labels) state).leaveLabel.orThrow
  | .assertion cond message, _, state => .check cond message state
  | .empty, _, _ => .ends (.inr rfl)

theorem Block.within_mayEnd : (body : Block) → (state : machine.State) →
    Within (body.run machine rounds state) body.MayEnd
  | ⟨stmts, _, _⟩, state => Stmt.within_mayEndAll stmts state

theorem Stmt.within_mayEndAll : (stmts : List Stmt) → (state : machine.State) →
    Within (Stmt.runAll machine rounds stmts state) (Stmt.MayEndAll stmts)
  | [], _ => .ends rfl
  | stmt :: rest, state => (stmt.within_mayEnd [] state).andThen (Stmt.within_mayEndAll rest)

theorem CatchClause.within_mayEnd : (clauses : List CatchClause) → (thrown : machine.Value) →
    (state : machine.State) → Within (CatchClause.handle machine rounds clauses thrown state)
      (CatchClause.MayEnd clauses).orThrow
  | [], _, _ => .ends (.inl rfl)
  | ⟨_, _, _, _, _, body⟩ :: rest, thrown, state => by
    rw [CatchClause.handle]
    split
    · exact fun completion final heq => .inr (.inl (body.within_mayEnd _ completion final heq))
    · exact fun completion final heq =>
        (CatchClause.within_mayEnd rest thrown state completion final heq).imp_right .inr

theorem SwitchCase.within_mayEnd : (cases : List SwitchCase) → (entry : Nat) →
    (state : machine.State) → Within (SwitchCase.runFrom machine rounds cases entry state)
      (SwitchCase.MayEnd cases entry)
  | [], _, _ => .ends rfl
  | _ :: rest, entry + 1, state => SwitchCase.within_mayEnd rest entry state
  | ⟨_, _, _, form, body⟩ :: rest, 0, state => by
    refine (body.within_mayEnd state).andThen fun state => ?_
    split
    · exact SwitchCase.within_mayEnd rest 0 state
    · exact .ends rfl
end

/-- Control that runs off the end of a block is seen. -/
theorem Block.canComplete_of_run {body : Block} {state state' : machine.State}
    (h : body.run machine rounds state = some (.normal, state')) : body.canComplete = true :=
  body.canComplete_of_mayEnd (body.within_mayEnd state _ _ h)

end AdviceMigration.Source
