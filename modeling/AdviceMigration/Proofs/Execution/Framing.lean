import AdviceMigration.Proofs.Advice.Reordering

/-!
# Variables that a statement does not name

A statement that neither uses nor declares a variable does not notice what value it has: executing it after another value is assigned to the variable gives the same as executing it before, up to the variable. Expressions have this by what is asked of a machine; it carries over to statements by one lemma for each way in which they are put together.
-/

namespace AdviceMigration.Scope

/-- Whether an event uses or declares a name. -/
def Event.names (name : String) : Event → Bool
  | .bind _ other _ => other == name
  | .use _ other _ => other == name
  | _ => false

/-- Whether no event uses or declares a name. -/
abbrev Unnamed (name : String) (events : List Event) : Prop :=
  ∀ event ∈ events, event.names name = false

variable {name : String} {events events' : List Event}

theorem unnamed_append : Unnamed name (events ++ events') ↔
    Unnamed name events ∧ Unnamed name events' := List.forall_mem_append

theorem unnamed_bind {binder : Binder} {other : String} {id : Source.NodeId} :
    Unnamed name (.bind binder other id :: events) ↔ other ≠ name ∧ Unnamed name events := by
  simp [Unnamed, Event.names]

theorem unnamed_enclosed : Unnamed name (enclosed events) ↔ Unnamed name events := by
  simp [Unnamed, enclosed, Event.names, or_imp, forall_and]

theorem unnamed_held : Unnamed name (held events) ↔ Unnamed name events := by
  simp [Unnamed, held, Event.names, or_imp, forall_and]

theorem unnamed_outside : Unnamed name (outside events) ↔ Unnamed name events := by
  simp [Unnamed, outside, Event.names, or_imp, forall_and]

end AdviceMigration.Scope

namespace AdviceMigration.Source

theorem LocalVar.events_eq (decl : LocalVar) :
    decl.events = Declarator.eventsList decl.declarators := by
  cases decl
  rfl

end AdviceMigration.Source

namespace AdviceMigration.Execution.Machine

open AdviceMigration.Source AdviceMigration.Scope AdviceMigration.Advice

/-- Whether what a machine leaves open besides expressions is apart from variables. -/
structure LocalsApart (machine : Machine) : Prop where
  assign_comm : ∀ {name other}, name ≠ other → ∀ state value value',
    machine.assign (machine.assign state name value) other value' =
      machine.assign (machine.assign state other value') name value
  selects : ∀ {labels : List Expr} {name}, (∀ label ∈ labels, mentionsAny [name] label = false) →
    ∀ subject state value, machine.selects subject labels (machine.assign state name value) =
      machine.selects subject labels state
  isInstance : ∀ subject types state name value,
    machine.isInstance subject types (machine.assign state name value) =
      machine.isInstance subject types state
  next : ∀ collection state name value, machine.next collection (machine.assign state name value) =
    (machine.next collection state).map fun step => (step.1, machine.assign step.2 name value)
  close : ∀ resource state name value, machine.close resource (machine.assign state name value) =
    (machine.close resource state).map fun closed => (closed.1, machine.assign closed.2 name value)
  checksAssertions : ∀ state name value,
    machine.checksAssertions (machine.assign state name value) = machine.checksAssertions state

variable {machine : Machine}

/-- An outcome after which a variable gets another value. -/
def assigning (name : String) (value : machine.Value) (outcome : machine.Outcome) :
    machine.Outcome :=
  outcome.map fun result => (result.1, machine.assign result.2 name value)

/-- Whether something that is executed does not notice the value of a variable. -/
def Ignores (name : String) (next : machine.State → machine.Outcome) : Prop :=
  ∀ state value, next (machine.assign state name value) = assigning name value (next state)

theorem mentionsAny_of_unnamed {name : String} {expr : Expr} (h : Unnamed name expr.events) :
    mentionsAny [name] expr = false := by
  rw [mentionsAny, List.any_eq_false]
  intro event hevent
  have hname := h event hevent
  cases event with
  | use role other id => simpa [Event.mentions, Event.names] using hname
  | _ => simp [Event.mentions]

theorem mentionsAny_of_unnamedList {name : String} {exprs : List Expr}
    (h : Unnamed name (Expr.eventsList exprs)) : ∀ expr ∈ exprs, mentionsAny [name] expr = false := by
  induction exprs with
  | nil => exact List.forall_mem_nil _
  | cons expr rest ih =>
    rw [Expr.eventsList, unnamed_append] at h
    exact List.forall_mem_cons.2 ⟨mentionsAny_of_unnamed h.1, ih h.2⟩

namespace Ignores

variable {name : String} {next next' : machine.State → machine.Outcome}

theorem const (completion : Completion machine.Value) :
    Ignores name fun state : machine.State => some (completion, state) := fun _ _ => rfl

theorem andThen (h : Ignores name next) (h' : Ignores name next') :
    Ignores name fun state => Machine.andThen (next state) next' := by
  intro state value
  dsimp only
  rw [h]
  match next state with
  | none => rfl
  | some (.normal, middle) => exact h' middle value
  | some (.broke _, _) => rfl
  | some (.continued _, _) => rfl
  | some (.returned _, _) => rfl
  | some (.threw _, _) => rfl

/-- What happens to an outcome without a look at the state does not notice a variable either. -/
theorem map {f : machine.Outcome → machine.Outcome}
    (hf : ∀ value outcome, f (assigning name value outcome) = assigning name value (f outcome))
    (h : Ignores name next) : Ignores name fun state => f (next state) := by
  intro state value
  dsimp only
  rw [h, hf]

theorem resume (labels : List String) (h : Ignores name next) :
    Ignores name fun state => Machine.resume labels (next state) := by
  refine h.map fun value outcome => ?_
  match outcome with
  | some (.continued (some label), _) =>
    simp only [assigning, Option.map_some, Machine.resume]
    split <;> rfl
  | none => rfl
  | some (.continued none, _) => rfl
  | some (.normal, _) => rfl
  | some (.broke _, _) => rfl
  | some (.returned _, _) => rfl
  | some (.threw _, _) => rfl

theorem leave (h : Ignores name next) : Ignores name fun state => Machine.leave (next state) := by
  refine h.map fun value outcome => ?_
  match outcome with
  | none => rfl
  | some (.broke none, _) => rfl
  | some (.broke (some _), _) => rfl
  | some (.normal, _) => rfl
  | some (.continued _, _) => rfl
  | some (.returned _, _) => rfl
  | some (.threw _, _) => rfl

theorem leaveLabel (label : String) (h : Ignores name next) :
    Ignores name fun state => Machine.leaveLabel label (next state) := by
  refine h.map fun value outcome => ?_
  match outcome with
  | some (.broke (some target), _) =>
    simp only [assigning, Option.map_some, Machine.leaveLabel]
    split <;> rfl
  | none => rfl
  | some (.broke none, _) => rfl
  | some (.normal, _) => rfl
  | some (.continued _, _) => rfl
  | some (.returned _, _) => rfl
  | some (.threw _, _) => rfl

theorem repeatRound (h : Ignores name next) (rounds : Nat) :
    Ignores name (Machine.repeatRound next rounds) := by
  induction rounds with
  | zero => exact fun _ _ => rfl
  | succ rounds ih => exact h.andThen ih

theorem handling {handler : machine.Value → machine.State → machine.Outcome}
    (h : Ignores name next) (h' : ∀ thrown, Ignores name (handler thrown)) :
    Ignores name fun state => Machine.handling (next state) handler := by
  intro state value
  dsimp only
  rw [h]
  match next state with
  | some (.threw thrown, middle) => exact h' thrown middle value
  | none => rfl
  | some (.normal, _) => rfl
  | some (.broke _, _) => rfl
  | some (.continued _, _) => rfl
  | some (.returned _, _) => rfl

theorem finish (h : Ignores name next) (h' : Ignores name next') :
    Ignores name fun state => Machine.finish (next state) next' := by
  intro state value
  dsimp only
  rw [h]
  rcases next state with _ | ⟨completion, middle⟩
  · rfl
  · simp only [assigning, Option.map_some, Machine.finish]
    rw [h']
    rcases next' middle with _ | ⟨completion', last⟩
    · rfl
    · cases completion' <;> rfl

section Locals

variable (hlocals : machine.LocalsApart)

include hlocals

theorem assign {other : String} (hne : other ≠ name) (h : Ignores name next)
    (result : machine.Value) :
    Ignores name fun state => next (machine.assign state other result) := by
  intro state value
  dsimp only
  rw [hlocals.assign_comm hne.symm, h]

theorem closing (h : Ignores name next) (resource : machine.Value) :
    Ignores name fun state => Machine.closing resource (next state) := by
  refine h.map fun value outcome => ?_
  rcases outcome with _ | ⟨completion, state⟩
  · rfl
  · simp only [assigning, Option.map_some, Machine.closing, hlocals.close]
    rcases machine.close resource state with _ | ⟨_ | thrown, last⟩
    · rfl
    · rfl
    · cases completion <;> rfl

theorem nextItem {other : String} (hne : other ≠ name) (h : Ignores name next)
    (collection : machine.Value) : Ignores name (Machine.nextItem collection other next) := by
  intro state value
  simp only [Machine.nextItem, hlocals.next]
  match machine.next collection state with
  | none => rfl
  | some (.ok (some item), middle) => exact assign hlocals hne h item middle value
  | some (.ok none, _) => rfl
  | some (.error _, _) => rfl

end Locals

section Effects

variable (hmachine : machine.RespectsEffects)

include hmachine

theorem withValue {expr : Expr} {then' : machine.Value → machine.State → machine.Outcome}
    (hexpr : Unnamed name expr.events) (h : ∀ result, Ignores name (then' result)) :
    Ignores name fun state => Machine.withValue (machine.eval expr state) then' := by
  intro state value
  dsimp only
  rw [hmachine.apart (mentionsAny_of_unnamed hexpr)]
  match machine.eval expr state with
  | none => rfl
  | some (.ok result, middle) => exact h result middle value
  | some (.error _, _) => rfl

/-- A choice between two branches that do not notice the variable. -/
theorem choose {cond : Expr} (hcond : Unnamed name cond.events) (h : Ignores name next)
    (h' : Ignores name next') :
    Ignores name fun state => Machine.withValue (machine.eval cond state) fun value state =>
      if machine.isTrue value then next state else next' state := by
  refine withValue hmachine hcond fun result state value => ?_
  split
  · exact h state value
  · exact h' state value

theorem whileTrue {cond : Expr} (hcond : Unnamed name cond.events) (h : Ignores name next) :
    Ignores name (Machine.whileTrue cond next) :=
  choose hmachine hcond h (const _)

theorem evalAll {exprs : List Expr} (h : Unnamed name (Expr.eventsList exprs)) :
    Ignores name (@Machine.evalAll machine exprs) := by
  induction exprs with
  | nil => exact const _
  | cons expr rest ih =>
    rw [Expr.eventsList, unnamed_append] at h
    exact withValue hmachine h.1 fun _ => ih h.2

variable (hlocals : machine.LocalsApart)

include hlocals

theorem declareAll {declarators : List Declarator}
    (h : Unnamed name (Declarator.eventsList declarators)) :
    Ignores name (@Machine.declareAll machine declarators) := by
  induction declarators with
  | nil => exact const _
  | cons declarator rest ih =>
    obtain ⟨_, other, _, init⟩ := declarator
    rw [Declarator.eventsList, unnamed_append, unnamed_append] at h
    obtain ⟨⟨hbind, hinit⟩, hrest⟩ := h
    have hne : other ≠ name := by simpa [Unnamed, Event.names] using hbind
    cases init with
    | none => exact ih hrest
    | some init => exact withValue hmachine hinit fun result => assign hlocals hne (ih hrest) result

theorem start {init : ForInit} (h : Unnamed name init.events) :
    Ignores name (@Machine.start machine init) := by
  cases init with
  | decl decl => exact declareAll hmachine hlocals (decl.events_eq ▸ h)
  | exprs values => exact evalAll hmachine h

theorem usingVars {declarators : List Declarator}
    (hdeclarators : Unnamed name (Declarator.eventsList declarators)) (h : Ignores name next) :
    Ignores name (Machine.usingVars next declarators) := by
  induction declarators with
  | nil => exact h
  | cons declarator rest ih =>
    obtain ⟨_, other, _, init⟩ := declarator
    rw [Declarator.eventsList, unnamed_append, unnamed_append] at hdeclarators
    obtain ⟨⟨hbind, hinit⟩, hrest⟩ := hdeclarators
    have hne : other ≠ name := by simpa [Unnamed, Event.names] using hbind
    cases init with
    | none => exact ih hrest
    | some init =>
      exact withValue hmachine hinit fun result =>
        closing hlocals (assign hlocals hne (ih hrest) result) result

theorem usingAll {resources : List Resource}
    (hresources : Unnamed name (Resource.eventsList resources)) (h : Ignores name next) :
    Ignores name (Machine.usingAll next resources) := by
  induction resources with
  | nil => exact h
  | cons resource rest ih =>
    cases resource with
    | decl decl =>
      rw [Resource.eventsList, unnamed_append] at hresources
      exact usingVars hmachine hlocals (decl.events_eq ▸ hresources.1) (ih hresources.2)
    | expr expr =>
      rw [Resource.eventsList, unnamed_append] at hresources
      exact withValue hmachine hresources.1 fun result =>
        closing hlocals (ih hresources.2) result

theorem check {cond : Expr} {message : Option Expr} (hcond : Unnamed name cond.events)
    (hmessage : Unnamed name (Expr.eventsOption message)) :
    Ignores name (@Machine.check machine cond message) := by
  intro state value
  simp only [Machine.check, hlocals.checksAssertions]
  split
  · refine withValue hmachine hcond (fun result => ?_) state value
    intro state value
    split
    · rfl
    · cases message with
      | none => rfl
      | some message => exact withValue hmachine hmessage (fun _ => const _) state value
  · rfl

end Effects

end Ignores

end AdviceMigration.Execution.Machine

namespace AdviceMigration.Source

open AdviceMigration.Execution AdviceMigration.Execution.Machine AdviceMigration.Scope

variable {machine : Machine} {rounds : Nat} {name : String}

theorem SwitchCase.unnamed_cons {case : SwitchCase} {rest : List SwitchCase} :
    Unnamed name (SwitchCase.eventsList (case :: rest)) ↔ Unnamed name (Expr.eventsList case.labels) ∧
      Unnamed name case.body.events ∧ Unnamed name (SwitchCase.eventsList rest) := by
  obtain ⟨comments, labels, isDefault, form, body⟩ := case
  have hinner : Unnamed name body.events ↔ Unnamed name body.innerEvents := by
    cases body
    exact unnamed_enclosed
  cases form <;>
    simp only [SwitchCase.eventsList, unnamed_append, unnamed_outside, hinner, and_assoc]

/-- Which case a switch enters does not depend on a variable that no label names. -/
theorem enters_assign (hlocals : machine.LocalsApart) {cases : List SwitchCase}
    (h : Unnamed name (SwitchCase.eventsList cases)) (subject : machine.Value)
    (state : machine.State) (value : machine.Value) :
    entry? subject (machine.assign state name value)
        (cases.map fun case => (case.labels, case.isDefault)) =
      entry? subject state (cases.map fun case => (case.labels, case.isDefault)) := by
  have hselects : (cases.map fun case => (case.labels, case.isDefault)).findIdx?
        (fun case => machine.selects subject case.1 (machine.assign state name value)) =
      (cases.map fun case => (case.labels, case.isDefault)).findIdx?
        fun case => machine.selects subject case.1 state := by
    induction cases with
    | nil => rfl
    | cons case rest ih =>
      obtain ⟨hlabels, -, hrest⟩ := SwitchCase.unnamed_cons.1 h
      simp only [List.map_cons, List.findIdx?_cons,
        hlocals.selects (mentionsAny_of_unnamedList hlabels), ih hrest]
  rw [ entry?, entry?, hselects]

/-- A `for` loop around a body that does not notice the variable. -/
theorem forLoop_ignores (hmachine : machine.RespectsEffects) (hlocals : machine.LocalsApart)
    {init : ForInit} {cond : Option Expr} {update : List Expr} {body : Stmt}
    (hinit : Unnamed name init.events) (hcond : Unnamed name (Expr.eventsOption cond))
    (hupdate : Unnamed name (Expr.eventsList update)) (labels : List String)
    (h : Ignores name (body.run machine rounds [])) :
    Ignores name ((StmtKind.forLoop init cond update body).run machine rounds labels) := by
  have hround := (h.resume labels).andThen (.evalAll hmachine hupdate)
  cases cond with
  | none => exact (Ignores.start hmachine hlocals hinit).andThen (.leave (.repeatRound hround rounds))
  | some cond =>
    exact (Ignores.start hmachine hlocals hinit).andThen
      (.leave (.repeatRound (.whileTrue hmachine hcond hround) rounds))

/-- A `switch` statement with cases that do not notice the variable. -/
theorem switch_ignores (hmachine : machine.RespectsEffects) (hlocals : machine.LocalsApart)
    {selector : Expr} {cases : List SwitchCase} (hselector : Unnamed name selector.events)
    (hcases : Unnamed name (SwitchCase.eventsList cases)) (labels : List String)
    (h : ∀ first, Ignores name (SwitchCase.runFrom machine rounds cases first)) :
    Ignores name ((StmtKind.switch selector cases).run machine rounds labels) := by
  refine .withValue hmachine hselector fun subject state value => ?_
  rw [enters_assign hlocals hcases]
  split
  next index _ => exact (h index).leave state value
  next => rfl

mutual
/-- A statement does not notice the value of a variable that it does not name. -/
theorem Stmt.ignores (hmachine : machine.RespectsEffects) (hlocals : machine.LocalsApart) :
    (stmt : Stmt) → (labels : List String) → Unnamed name stmt.events →
    Ignores name (stmt.run machine rounds labels)
  | ⟨_, _, kind⟩, labels, h => kind.ignores hmachine hlocals labels h

theorem StmtKind.ignores (hmachine : machine.RespectsEffects) (hlocals : machine.LocalsApart) :
    (kind : StmtKind) → (labels : List String) → Unnamed name kind.events →
    Ignores name (kind.run machine rounds labels)
  | .block body, _, h => body.ignores hmachine hlocals h
  | .localVar decl, _, h => .declareAll hmachine hlocals (decl.events_eq ▸ h)
  | .localClass _, _, _ => .const _
  | .expr _, _, h => .withValue hmachine h fun _ => .const _
  | .ret none, _, _ => .const _
  | .ret (some _), _, h => .withValue hmachine h fun _ => .const _
  | .ifElse cond yes none, _, h => by
    rw [StmtKind.events, unnamed_append, unnamed_enclosed] at h
    exact .choose hmachine h.1 (yes.ignores hmachine hlocals [] h.2) (.const _)
  | .ifElse cond yes (some no), _, h => by
    simp only [StmtKind.events, unnamed_append, unnamed_enclosed] at h
    exact .choose hmachine h.1.1 (yes.ignores hmachine hlocals [] h.1.2)
      (no.ignores hmachine hlocals [] h.2)
  | .whileLoop cond body, labels, h => by
    rw [StmtKind.events, unnamed_append, unnamed_enclosed] at h
    have hbody := body.ignores hmachine hlocals [] h.2
    exact .leave (.repeatRound (.whileTrue hmachine h.1 (hbody.resume labels)) rounds)
  | .doWhile body cond, labels, h => by
    rw [StmtKind.events, unnamed_append, unnamed_enclosed] at h
    have hbody := body.ignores hmachine hlocals [] h.1
    exact .leave (.repeatRound
      ((hbody.resume labels).andThen (.whileTrue hmachine h.2 (.const _))) rounds)
  | .forLoop init cond update body, labels, h => by
    simp only [StmtKind.events, unnamed_append, unnamed_enclosed] at h
    obtain ⟨⟨⟨hinit, hcond⟩, hupdate⟩, hbody⟩ := h
    exact forLoop_ignores hmachine hlocals hinit hcond hupdate labels
      (body.ignores hmachine hlocals [] hbody)
  | .forEach ⟨_, _, _, _, other⟩ iterable body, labels, h => by
    rw [StmtKind.events, unnamed_append, unnamed_enclosed, unnamed_bind] at h
    obtain ⟨hiterable, hne, hbody⟩ := h
    have hrun := body.ignores hmachine hlocals [] hbody
    exact .withValue hmachine hiterable fun collection =>
      .leave (.repeatRound (.nextItem hlocals hne (hrun.resume labels) collection) rounds)
  | .tryBlock resources body catches none, _, h => by
    simp only [StmtKind.events, unnamed_append, unnamed_enclosed] at h
    obtain ⟨⟨⟨hresources, hbody⟩, hcatches⟩, -⟩ := h
    exact .handling (.usingAll hmachine hlocals hresources (body.ignores hmachine hlocals hbody))
      (CatchClause.ignores hmachine hlocals catches hcatches)
  | .tryBlock resources body catches (some finallyBody), _, h => by
    simp only [StmtKind.events, unnamed_append, unnamed_enclosed] at h
    obtain ⟨⟨⟨hresources, hbody⟩, hcatches⟩, hfinally⟩ := h
    exact .finish (.handling
      (.usingAll hmachine hlocals hresources (body.ignores hmachine hlocals hbody))
      (CatchClause.ignores hmachine hlocals catches hcatches))
      (finallyBody.ignores hmachine hlocals hfinally)
  | .throw _, _, h => .withValue hmachine h fun _ => .const _
  | .breakTo _, _, _ => .const _
  | .continueTo _, _, _ => .const _
  | .switch selector cases, labels, h => by
    rw [StmtKind.events, unnamed_append, unnamed_enclosed] at h
    exact switch_ignores hmachine hlocals h.1 h.2 labels
      (SwitchCase.ignores hmachine hlocals cases h.2)
  | .sync _ body, _, h => by
    rw [StmtKind.events, unnamed_append] at h
    exact .withValue hmachine h.1 fun _ => body.ignores hmachine hlocals h.2
  | .labeled label body, labels, h => by
    rw [StmtKind.events, unnamed_held] at h
    exact (body.ignores hmachine hlocals (label :: labels) h).leaveLabel label
  | .assertion _ _, _, h => by
    rw [StmtKind.events, unnamed_append] at h
    exact .check hmachine hlocals h.1 h.2
  | .empty, _, _ => .const _

theorem Block.ignores (hmachine : machine.RespectsEffects) (hlocals : machine.LocalsApart) :
    (body : Block) → Unnamed name body.events → Ignores name (body.run machine rounds)
  | ⟨stmts, _, _⟩, h => by
    rw [Block.events, unnamed_enclosed] at h
    exact Stmt.ignoresAll hmachine hlocals stmts h

theorem Stmt.ignoresAll (hmachine : machine.RespectsEffects) (hlocals : machine.LocalsApart) :
    (stmts : List Stmt) → Unnamed name (Stmt.eventsList stmts) →
    Ignores name (Stmt.runAll machine rounds stmts)
  | [], _ => .const _
  | stmt :: rest, h => by
    rw [Stmt.eventsList, unnamed_append] at h
    exact (stmt.ignores hmachine hlocals [] h.1).andThen (Stmt.ignoresAll hmachine hlocals rest h.2)

theorem CatchClause.ignores (hmachine : machine.RespectsEffects) (hlocals : machine.LocalsApart) :
    (clauses : List CatchClause) → Unnamed name (CatchClause.eventsList clauses) → ∀ thrown,
    Ignores name (CatchClause.handle machine rounds clauses thrown)
  | [], _, _ => .const _
  | ⟨_, _, _, types, other, body⟩ :: rest, h, thrown => by
    rw [CatchClause.eventsList, unnamed_append, unnamed_enclosed, unnamed_bind] at h
    obtain ⟨⟨hne, hbody⟩, hrest⟩ := h
    intro state value
    simp only [CatchClause.handle, hlocals.isInstance]
    split
    · exact (body.ignores hmachine hlocals hbody).assign hlocals hne thrown state value
    · exact CatchClause.ignores hmachine hlocals rest hrest thrown state value

theorem SwitchCase.ignores (hmachine : machine.RespectsEffects) (hlocals : machine.LocalsApart) :
    (cases : List SwitchCase) → Unnamed name (SwitchCase.eventsList cases) → ∀ first,
    Ignores name (SwitchCase.runFrom machine rounds cases first)
  | [], _, _ => .const _
  | ⟨_, _, _, form, body⟩ :: rest, h, first => by
    obtain ⟨-, hbody, hrest⟩ := SwitchCase.unnamed_cons.1 h
    have hrest := SwitchCase.ignores hmachine hlocals rest hrest
    cases first with
    | succ first => exact hrest first
    | zero =>
      refine (body.ignores hmachine hlocals hbody).andThen fun state value => ?_
      split
      · exact hrest 0 state value
      · rfl
end

end AdviceMigration.Source
