import AdviceMigration.Proofs.Source.Paths
import AdviceMigration.Scope.Event

/-!
# What an edit does to events

An edit at a path puts other events in place of those of the part the path leads to. The events before and after them stay.
-/

namespace AdviceMigration.Source

open AdviceMigration.Scope

/-- What a part of a body says about names. A block stands without a scope of its own, since the cases of a `switch` share theirs. -/
@[simp] def Focus.events : Focus → List Event
  | .block inner => inner.innerEvents
  | .stmt inner => inner.events

/-- Whether events differ in one place only, where others stand. -/
def DifferBy (part new events events' : List Event) : Prop :=
  ∃ before after, events = before ++ part ++ after ∧ events' = before ++ new ++ after

/-- Whether the events of two parts differ in one place only, where those of two other parts stand. -/
def Focus.Around (part new focus focus' : Focus) : Prop :=
  DifferBy part.events new.events focus.events focus'.events

theorem Stmt.eventsList_append (stmts stmts' : List Stmt) :
    Stmt.eventsList (stmts ++ stmts') = Stmt.eventsList stmts ++ Stmt.eventsList stmts' := by
  induction stmts with
  | nil => rfl
  | cons stmt rest ih => rw [List.cons_append, Stmt.eventsList, Stmt.eventsList, ih, List.append_assoc]

theorem CatchClause.eventsList_append (clauses clauses' : List CatchClause) :
    CatchClause.eventsList (clauses ++ clauses') =
      CatchClause.eventsList clauses ++ CatchClause.eventsList clauses' := by
  induction clauses with
  | nil => rfl
  | cons clause rest ih =>
    obtain ⟨id, annotations, modifiers, types, name, body⟩ := clause
    rw [List.cons_append, CatchClause.eventsList, CatchClause.eventsList, ih, List.append_assoc]

theorem SwitchCase.eventsList_append (cases cases' : List SwitchCase) :
    SwitchCase.eventsList (cases ++ cases') =
      SwitchCase.eventsList cases ++ SwitchCase.eventsList cases' := by
  induction cases with
  | nil => rfl
  | cons case rest ih =>
    obtain ⟨comments, labels, isDefault, form, body⟩ := case
    cases form with
    | colon =>
      exact (congrArg (outside (Expr.eventsList labels) ++ body.innerEvents ++ ·) ih).trans
        (List.append_assoc ..).symm
    | arrowBlock | arrowSingle =>
      exact (congrArg (outside (Expr.eventsList labels ++ body.events) ++ ·) ih).trans
        (List.append_assoc ..).symm

theorem Block.events_eq (body : Block) : body.events = enclosed body.innerEvents := by
  obtain ⟨stmts, endComments, closing⟩ := body
  rfl

namespace DifferBy

variable {part new events events' : List Event}

theorem self (part new : List Event) : DifferBy part new part new :=
  ⟨[], [], (List.append_nil _).symm, (List.append_nil _).symm⟩

theorem trans {inner inner' : List Event} (h : DifferBy part new inner inner')
    (h' : DifferBy inner inner' events events') : DifferBy part new events events' := by
  obtain ⟨before, after, rfl, rfl⟩ := h
  obtain ⟨before', after', rfl, rfl⟩ := h'
  exact ⟨before' ++ before, after ++ after', by simp only [List.append_assoc],
    by simp only [List.append_assoc]⟩

theorem behind (before : List Event) (h : DifferBy part new events events') :
    DifferBy part new (before ++ events) (before ++ events') :=
  h.trans ⟨before, [], (List.append_nil _).symm, (List.append_nil _).symm⟩

theorem andThen (h : DifferBy part new events events') (after : List Event) :
    DifferBy part new (events ++ after) (events' ++ after) :=
  h.trans ⟨[], after, rfl, rfl⟩

theorem enclosed (h : DifferBy part new events events') :
    DifferBy part new (Scope.enclosed events) (Scope.enclosed events') :=
  (h.behind [.hold, .open]).andThen [.release]

theorem held (h : DifferBy part new events events') :
    DifferBy part new (Scope.held events) (Scope.held events') :=
  (h.behind [.hold]).andThen [.release]

theorem outside (h : DifferBy part new events events') :
    DifferBy part new (Scope.outside events) (Scope.outside events') :=
  (h.behind [.swap]).andThen [.swap]

/-- A block says what its statements say, in a scope of its own. -/
theorem block (old new : Block) : DifferBy old.innerEvents new.innerEvents old.events new.events := by
  rw [Block.events_eq, Block.events_eq]
  exact (self _ _).enclosed

theorem stmts (before after : List Stmt) (old new : Stmt) :
    DifferBy old.events new.events (Stmt.eventsList (before ++ old :: after))
      (Stmt.eventsList (before ++ new :: after)) := by
  rw [Stmt.eventsList_append, Stmt.eventsList_append]
  exact ((self _ _).andThen _).behind _

theorem catches (before after : List CatchClause) (clause : CatchClause) (new : Block) :
    DifferBy clause.body.innerEvents new.innerEvents
      (CatchClause.eventsList (before ++ clause :: after))
      (CatchClause.eventsList (before ++ { clause with body := new } :: after)) := by
  obtain ⟨id, annotations, modifiers, types, name, old⟩ := clause
  rw [CatchClause.eventsList_append, CatchClause.eventsList_append]
  exact (((block old new).behind [_]).enclosed.andThen _).behind _

theorem cases (before after : List SwitchCase) (case : SwitchCase) (new : Block) :
    DifferBy case.body.innerEvents new.innerEvents (SwitchCase.eventsList (before ++ case :: after))
      (SwitchCase.eventsList (before ++ { case with body := new } :: after)) := by
  obtain ⟨comments, labels, isDefault, form, old⟩ := case
  rw [SwitchCase.eventsList_append, SwitchCase.eventsList_append]
  cases form with
  | colon => exact (((self _ _).behind _).andThen _).behind _
  | arrowBlock | arrowSingle => exact (((block old new).behind _).outside.andThen _).behind _

end DifferBy

namespace Focus

/-- Putting a part in place of another changes its own events only. -/
theorem Swap.around {step : Step} {part new focus focus' : Focus}
    (h : Swap step part new focus focus') : Around part new focus focus' := by
  cases h with
  | stmt => exact .stmts _ _ _ _
  | nested => exact .block _ _
  | @thenBranch _ _ cond no =>
    cases no with
    | none => exact (DifferBy.self _ _).enclosed.behind _
    | some no => exact ((DifferBy.self _ _).enclosed.behind _).andThen _
  | elseBranch => exact (DifferBy.self _ _).enclosed.behind _
  | whileLoop => exact (DifferBy.self _ _).enclosed.behind _
  | doWhile => exact (DifferBy.self _ _).enclosed.andThen _
  | forLoop => exact ((DifferBy.self _ _).enclosed.behind _).enclosed
  | forEach => exact ((DifferBy.self _ _).behind [_]).enclosed.behind _
  | labeled => exact (DifferBy.self _ _).held
  | tryBody => exact (((DifferBy.block _ _).behind _).enclosed.andThen _).andThen _
  | sync => exact (DifferBy.block _ _).behind _
  | catchBlock => exact ((DifferBy.catches _ _ _ _).behind _).andThen _
  | finallyBlock => exact (DifferBy.block _ _).behind _
  | caseBlock => exact (DifferBy.cases _ _ _ _).enclosed.behind _

theorem carries_around : Carries Around where
  self := fun _ _ => .self _ _
  outwards := fun h hswap => h.trans hswap.around

end Focus

namespace Block

/-- Changing a statement changes its events only. -/
theorem events_updateStmt? {body body' : Block} {path : StmtPath} {change : Stmt → Stmt}
    (h : body.updateStmt? path change = some body') :
    ∃ stmt before after, body.stmtAt? path = some stmt ∧
      body.innerEvents = before ++ stmt.events ++ after ∧
      body'.innerEvents = before ++ (change stmt).events ++ after := by
  obtain ⟨stmt, hat, before, after, hbody, hbody'⟩ := Focus.carries_around.exists_stmt h
  exact ⟨stmt, before, after, hat, hbody, hbody'⟩

/-- Changing a block changes its events only. -/
theorem events_updateBlock? {body body' : Block} {path : StmtPath} {change : Block → Option Block}
    (h : body.updateBlock? path change = some body') :
    ∃ block block' before after, body.blockAt? path = some block ∧ change block = some block' ∧
      body.innerEvents = before ++ block.innerEvents ++ after ∧
      body'.innerEvents = before ++ block'.innerEvents ++ after := by
  obtain ⟨block, block', hat, hchange, before, after, hbody, hbody'⟩ :=
    Focus.carries_around.exists_block h
  exact ⟨block, block', before, after, hat, hchange, hbody, hbody'⟩

end Block

end AdviceMigration.Source
