import AdviceMigration.Proofs.Execution.Completion
import AdviceMigration.Proofs.Execution.Framing
import AdviceMigration.Proofs.Source.Paths

/-!
# Executions that return alike

Two executions return alike if each of them returns a value when the other one does, the same value, in states that differ only in some variables. What runs after a `return` are the `finally` blocks and the resources around it. If none of them notices the variables, a part of a statement that ends like another one except for these variables at a `return` can stand in its place: all other statements around a `return` only pass it on.
-/

namespace AdviceMigration.Execution.Machine

open AdviceMigration.Source AdviceMigration.Advice

variable {machine : Machine}

/-! ### Executions that return alike -/

/-- Whether a state becomes another one when some of the named variables get other values. -/
inductive Updated (names : List String) (state : machine.State) : machine.State → Prop where
  | refl : Updated names state state
  | assign {state' : machine.State} {name : String} (h : Updated names state state')
      (hname : name ∈ names) (value : machine.Value) :
    Updated names state (machine.assign state' name value)

/-- Whether each of two executions returns a value if the other one does. The values are the same, and so are the states but for variables that the first execution assigns. -/
structure ReturnAlike (names : List String) (outcome outcome' : machine.Outcome) : Prop where
  forth : ∀ {value state}, outcome = some (.returned value, state) →
    ∃ state', outcome' = some (.returned value, state') ∧ Updated names state' state
  back : ∀ {value state'}, outcome' = some (.returned value, state') →
    ∃ state, outcome = some (.returned value, state) ∧ Updated names state' state

theorem Updated.trans {names names' both : List String} {state state' state'' : machine.State}
    (h : Updated names state state') (h' : Updated names' state' state'') (hnames : names ⊆ both)
    (hnames' : names' ⊆ both) : Updated both state state'' := by
  induction h' with
  | refl =>
    induction h with
    | refl => exact .refl
    | assign _ hname value ih => exact .assign ih (hnames hname) value
  | assign _ hname value ih => exact .assign ih (hnames' hname) value

namespace ReturnAlike

variable {names names' : List String} {outcome outcome' outcome'' : machine.Outcome}

theorem refl (outcome : machine.Outcome) : ReturnAlike names outcome outcome :=
  ⟨fun heq => ⟨_, heq, .refl⟩, fun heq => ⟨_, heq, .refl⟩⟩

theorem trans (h : ReturnAlike names outcome outcome') (h' : ReturnAlike names' outcome' outcome'')
    {both : List String} (hnames : names ⊆ both) (hnames' : names' ⊆ both) :
    ReturnAlike both outcome outcome'' where
  forth := by
    intro value state heq
    obtain ⟨state', heq', hupdated⟩ := h.forth heq
    obtain ⟨state'', heq'', hupdated'⟩ := h'.forth heq'
    exact ⟨state'', heq'', hupdated'.trans hupdated hnames' hnames⟩
  back := by
    intro value state'' heq''
    obtain ⟨state', heq', hupdated'⟩ := h'.back heq''
    obtain ⟨state, heq, hupdated⟩ := h.back heq'
    exact ⟨state, heq, hupdated'.trans hupdated hnames' hnames⟩

/-- After the same beginning, executions that return alike still do. -/
theorem andThen {next next' : machine.State → machine.Outcome}
    (h : ∀ state, ReturnAlike names (next state) (next' state)) (outcome : machine.Outcome) :
    ReturnAlike names (Machine.andThen outcome next) (Machine.andThen outcome next') := by
  match outcome with
  | none => exact .refl _
  | some (.normal, state) => exact h state
  | some (.broke _, _) => exact .refl _
  | some (.continued _, _) => exact .refl _
  | some (.returned _, _) => exact .refl _
  | some (.threw _, _) => exact .refl _

end ReturnAlike

/-! ### Executions that end alike -/

/-- Whether an execution ends like another one, but that some variables may have other values after a `return` and some after an exception. -/
inductive EndsLike (dead lost : List String) : machine.Outcome → machine.Outcome → Prop where
  | same (outcome : machine.Outcome) : EndsLike dead lost outcome outcome
  | returned (value : Option machine.Value) {state state' : machine.State}
      (h : Updated dead state' state) :
    EndsLike dead lost (some (.returned value, state)) (some (.returned value, state'))
  | threw (value : machine.Value) {state state' : machine.State} (h : Updated lost state' state) :
    EndsLike dead lost (some (.threw value, state)) (some (.threw value, state'))

/-- Whether closing a resource always succeeds. -/
def ClosesResources (machine : Machine) : Prop :=
  ∀ resource state, ∃ state', machine.close resource state = some (none, state')

namespace EndsLike

variable {dead lost : List String} {outcome outcome' outcome'' : machine.Outcome}

theorem mono (h : EndsLike dead lost outcome outcome') {dead' lost' : List String}
    (hdead : dead ⊆ dead') (hlost : lost ⊆ lost') : EndsLike dead' lost' outcome outcome' := by
  cases h with
  | same => exact .same _
  | returned value h => exact .returned value (h.trans .refl hdead (List.Subset.refl _))
  | threw value h => exact .threw value (h.trans .refl hlost (List.Subset.refl _))

theorem trans (h : EndsLike dead lost outcome outcome') (h' : EndsLike dead lost outcome' outcome'') :
    EndsLike dead lost outcome outcome'' := by
  cases h with
  | same => exact h'
  | returned value hupdated =>
    cases h' with
    | same => exact .returned value hupdated
    | returned _ hupdated' =>
      exact .returned value (hupdated'.trans hupdated (List.Subset.refl _) (List.Subset.refl _))
  | threw value hupdated =>
    cases h' with
    | same => exact .threw value hupdated
    | threw _ hupdated' =>
      exact .threw value (hupdated'.trans hupdated (List.Subset.refl _) (List.Subset.refl _))

theorem eq_of_normal {state : machine.State}
    (h : EndsLike dead lost (some (.normal, state)) outcome') : outcome' = some (.normal, state) := by
  cases h
  rfl

/-- What lets both a `return` and an exception pass does so whatever value a variable has. -/
theorem pass {f : machine.Outcome → machine.Outcome}
    (hreturned : ∀ value state, f (some (.returned value, state)) = some (.returned value, state))
    (hthrew : ∀ value state, f (some (.threw value, state)) = some (.threw value, state))
    (h : EndsLike dead lost outcome outcome') : EndsLike dead lost (f outcome) (f outcome') := by
  cases h with
  | same => exact .same _
  | returned value h =>
    rw [hreturned, hreturned]
    exact .returned value h
  | threw value h =>
    rw [hthrew, hthrew]
    exact .threw value h

section Around

variable {next next' : machine.State → machine.Outcome}

/-- After a normal end, executions that end alike still do. -/
theorem andThen_same (hnext : ∀ state, EndsLike dead lost (next state) (next' state))
    (outcome : machine.Outcome) :
    EndsLike dead lost (Machine.andThen outcome next) (Machine.andThen outcome next') := by
  match outcome with
  | some (.normal, state) => exact hnext state
  | none => exact .same _
  | some (.broke _, _) => exact .same _
  | some (.continued _, _) => exact .same _
  | some (.returned _, _) => exact .same _
  | some (.threw _, _) => exact .same _

theorem andThen (h : EndsLike dead lost outcome outcome')
    (hnext : ∀ state, EndsLike dead lost (next state) (next' state)) :
    EndsLike dead lost (Machine.andThen outcome next) (Machine.andThen outcome' next') :=
  (andThen_same hnext outcome).trans
    (h.pass (f := (Machine.andThen · next')) (fun _ _ => rfl) fun _ _ => rfl)

theorem withValue {then₁ then₂ : machine.Value → machine.State → machine.Outcome}
    (hthen : ∀ value state, EndsLike dead lost (then₁ value state) (then₂ value state))
    (evaluated : machine.Evaluated) :
    EndsLike dead lost (Machine.withValue evaluated then₁) (Machine.withValue evaluated then₂) := by
  match evaluated with
  | none => exact .same _
  | some (.ok value, state) => exact hthen value state
  | some (.error _, _) => exact .same _

theorem resume (h : EndsLike dead lost outcome outcome') (labels : List String) :
    EndsLike dead lost (Machine.resume labels outcome) (Machine.resume labels outcome') :=
  h.pass (fun _ _ => rfl) fun _ _ => rfl

theorem leave (h : EndsLike dead lost outcome outcome') :
    EndsLike dead lost (Machine.leave outcome) (Machine.leave outcome') :=
  h.pass (fun _ _ => rfl) fun _ _ => rfl

theorem leaveLabel (h : EndsLike dead lost outcome outcome') (label : String) :
    EndsLike dead lost (Machine.leaveLabel label outcome) (Machine.leaveLabel label outcome') :=
  h.pass (fun _ _ => rfl) fun _ _ => rfl

theorem repeatRound (h : ∀ state, EndsLike dead lost (next state) (next' state)) (rounds : Nat) :
    ∀ state, EndsLike dead lost (Machine.repeatRound next rounds state)
      (Machine.repeatRound next' rounds state) := by
  induction rounds with
  | zero => exact fun _ => .same _
  | succ rounds ih => exact fun state => (h state).andThen ih

/-- Other handlers that end alike. -/
theorem handling {handler handler' : machine.Value → machine.State → machine.Outcome}
    (h : ∀ thrown state, EndsLike dead lost (handler thrown state) (handler' thrown state))
    (outcome : machine.Outcome) :
    EndsLike dead lost (Machine.handling outcome handler) (Machine.handling outcome handler') := by
  match outcome with
  | some (.threw thrown, state) => exact h thrown state
  | none => exact .same _
  | some (.normal, _) => exact .same _
  | some (.broke _, _) => exact .same _
  | some (.continued _, _) => exact .same _
  | some (.returned _, _) => exact .same _

/-- A handler that does not notice the variables and only throws passes on an exception after which they have other values. -/
theorem handling_passing {handler : machine.Value → machine.State → machine.Outcome}
    (h : EndsLike dead lost outcome outcome')
    (hpasses : lost ≠ [] → (∀ name ∈ lost, ∀ thrown, Ignores name (handler thrown)) ∧
      ∀ thrown state, Within (handler thrown state) (· = .threw)) :
    EndsLike dead lost (Machine.handling outcome handler) (Machine.handling outcome' handler) := by
  cases h with
  | same => exact .same _
  | returned value h => exact .returned value h
  | @threw thrown state state' hupdated =>
    change EndsLike dead lost (handler thrown state) (handler thrown state')
    -- Both handlers throw the same, or neither ends.
    have hends : handler thrown state = handler thrown state' ∨ ∃ value last last',
        handler thrown state = some (.threw value, last) ∧
        handler thrown state' = some (.threw value, last') ∧ Updated lost last' last := by
      induction hupdated with
      | refl => exact .inl rfl
      | @assign middle name _ hname value ih =>
        obtain ⟨hignores, hthrows⟩ := hpasses (List.ne_nil_of_mem hname)
        rw [hignores name hname]
        rcases ih with heq | ⟨result, last, last', heq, heq', hrest⟩
        · rw [heq]
          have hthrew := hthrows thrown state'
          rcases hhandled : handler thrown state' with _ | ⟨completion, last⟩
          · exact .inl rfl
          · have hending := hthrew completion last hhandled
            cases completion with
            | threw result => exact .inr ⟨result, _, last, rfl, rfl, .assign .refl hname value⟩
            | normal | broke _ | continued _ | returned _ => cases hending
        · rw [heq]
          exact .inr ⟨result, _, last', rfl, heq', .assign hrest hname value⟩
    rcases hends with heq | ⟨result, last, last', heq, heq', hrest⟩
    · rw [heq]
      exact .same _
    · rw [heq, heq']
      exact .threw result hrest

theorem whileTrue (h : ∀ state, EndsLike dead lost (next state) (next' state)) (cond : Expr) :
    ∀ state, EndsLike dead lost (Machine.whileTrue cond next state)
      (Machine.whileTrue cond next' state) := by
  refine fun state => withValue (fun value state => ?_) _
  split
  · exact h state
  · exact .same _

theorem nextItem (h : ∀ state, EndsLike dead lost (next state) (next' state))
    (collection : machine.Value) (name : String) (state : machine.State) :
    EndsLike dead lost (Machine.nextItem collection name next state)
      (Machine.nextItem collection name next' state) := by
  unfold Machine.nextItem
  split
  · exact h _
  · exact .same _
  · exact .same _
  · exact .same _

/-- Another `finally` block that ends alike. -/
theorem finish (h : ∀ state, EndsLike dead lost (next state) (next' state))
    (outcome : machine.Outcome) :
    EndsLike dead lost (Machine.finish outcome next) (Machine.finish outcome next') := by
  match outcome with
  | none => exact .same _
  | some (completion, state) =>
    have hnext := h state
    simp only [Machine.finish]
    generalize next state = last, next' state = last' at hnext
    cases hnext with
    | same => exact .same _
    | returned value h => exact .returned value h
    | threw value h => exact .threw value h

/-- What ends normally and does not notice some variables leaves states that differ in them alone. -/
theorem exists_normal {names : List String} {state state' : machine.State}
    (h : Updated names state' state) (hignores : ∀ name ∈ names, Ignores name next)
    (hnormal : ∀ state, ∃ state', next state = some (.normal, state')) :
    ∃ last last', next state = some (.normal, last) ∧ next state' = some (.normal, last') ∧
      Updated names last' last := by
  induction h with
  | refl =>
    obtain ⟨last, hlast⟩ := hnormal state'
    exact ⟨last, last, hlast, hlast, .refl⟩
  | assign _ hname value ih =>
    obtain ⟨last, last', hlast, hlast', hrest⟩ := ih
    refine ⟨_, last', ?_, hlast', .assign hrest hname value⟩
    rw [hignores _ hname, hlast]
    rfl

/-- A `finally` block after a `return` or an exception passes it on if it ends normally. -/
theorem finish_ignoring (h : EndsLike dead lost outcome outcome') (hlost : lost ⊆ dead)
    (hignores : ∀ name ∈ dead, Ignores name next)
    (hnormal : ∀ state, ∃ state', next state = some (.normal, state')) :
    EndsLike dead lost (Machine.finish outcome next) (Machine.finish outcome' next) := by
  cases h with
  | same => exact .same _
  | returned value hupdated =>
    obtain ⟨last, last', hlast, hlast', hrest⟩ := exists_normal hupdated hignores hnormal
    simp only [Machine.finish, hlast, hlast']
    exact .returned value hrest
  | threw value hupdated =>
    obtain ⟨last, last', hlast, hlast', hrest⟩ :=
      exists_normal hupdated (fun name hname => hignores name (hlost hname)) hnormal
    simp only [Machine.finish, hlast, hlast']
    exact .threw value hrest

/-- Closing a resource leaves states that differ in some variables different in them alone. -/
theorem exists_closed {names : List String} {state state' : machine.State}
    (h : Updated names state' state) (hlocals : machine.LocalsApart)
    (hcloses : machine.ClosesResources) (resource : machine.Value) :
    ∃ last last', machine.close resource state = some (none, last) ∧
      machine.close resource state' = some (none, last') ∧ Updated names last' last := by
  induction h with
  | refl =>
    obtain ⟨last, hlast⟩ := hcloses resource state'
    exact ⟨last, last, hlast, hlast, .refl⟩
  | assign _ hname value ih =>
    obtain ⟨last, last', hlast, hlast', hrest⟩ := ih
    refine ⟨_, last', ?_, hlast', .assign hrest hname value⟩
    rw [hlocals.close, hlast]
    rfl

/-- A resource is closed after a `return` and after an exception as well. -/
theorem closing (hlocals : machine.LocalsApart) (hcloses : machine.ClosesResources)
    (h : EndsLike dead lost outcome outcome') (resource : machine.Value) :
    EndsLike dead lost (Machine.closing resource outcome) (Machine.closing resource outcome') := by
  cases h with
  | same => exact .same _
  | returned value hupdated =>
    obtain ⟨last, last', hlast, hlast', hrest⟩ := exists_closed hupdated hlocals hcloses resource
    simp only [Machine.closing, hlast, hlast']
    exact .returned value hrest
  | threw value hupdated =>
    obtain ⟨last, last', hlast, hlast', hrest⟩ := exists_closed hupdated hlocals hcloses resource
    simp only [Machine.closing, hlast, hlast']
    exact .threw value hrest

theorem usingVars (hlocals : machine.LocalsApart) (hcloses : machine.ClosesResources)
    (h : ∀ state, EndsLike dead lost (next state) (next' state)) (declarators : List Declarator) :
    ∀ state, EndsLike dead lost (Machine.usingVars next declarators state)
      (Machine.usingVars next' declarators state) := by
  induction declarators with
  | nil => exact h
  | cons declarator rest ih =>
    obtain ⟨_, _, _, _ | init⟩ := declarator
    · exact ih
    · exact fun state => withValue (fun value _ => (ih _).closing hlocals hcloses value) _

theorem usingAll {resources : List Resource}
    (h : ∀ state, EndsLike dead lost (next state) (next' state))
    (hresources : resources ≠ [] → machine.LocalsApart ∧ machine.ClosesResources) :
    ∀ state, EndsLike dead lost (Machine.usingAll next resources state)
      (Machine.usingAll next' resources state) := by
  induction resources with
  | nil => exact h
  | cons resource rest ih =>
    obtain ⟨hlocals, hcloses⟩ := hresources (List.cons_ne_nil _ _)
    have hrest := ih fun _ => ⟨hlocals, hcloses⟩
    cases resource with
    | decl decl => exact usingVars hlocals hcloses hrest decl.declarators
    | expr expr =>
      exact fun state => withValue (fun value _ => (hrest _).closing hlocals hcloses value) _

end Around

end EndsLike

end AdviceMigration.Execution.Machine

namespace AdviceMigration.Source

open AdviceMigration.Execution AdviceMigration.Execution.Machine

/-! ### Where a return may stand -/

/-- Whether there is a `return` in what a path leads to. -/
def Focus.HasReturn (focus : Focus) : Prop :=
  ∃ path stmt, focus.at? path = some (.stmt stmt) ∧ stmt.isReturn

theorem Focus.HasReturn.of_child? {focus part : Focus} {step : Step}
    (h : focus.child? step = some part) (hpart : part.HasReturn) : focus.HasReturn := by
  obtain ⟨path, stmt, hat, hreturn⟩ := hpart
  refine ⟨step :: path, stmt, ?_, hreturn⟩
  rw [Focus.at?, h]
  exact hat

variable {machine : Machine} {rounds : Nat} {dead lost : List String}

/-- Whether `catch` clauses only pass an exception on, whatever values some variables have: none of them names such a variable, ends in another way than by throwing, or returns. -/
structure CatchClause.PassOn (machine : Machine) (rounds : Nat) (lost : List String)
    (catches : List CatchClause) : Prop where
  ignores : ∀ name ∈ lost, ∀ thrown,
    Ignores name (@CatchClause.handle machine rounds catches thrown)
  throws : ∀ thrown state, Within (CatchClause.handle machine rounds catches thrown state) (· = .threw)
  noReturn : ∀ clause ∈ catches, ¬ (Focus.block clause.body).HasReturn

/-- Whether a statement, if it is a `try` statement around a `return`, runs nothing after it that notices some variables or that does not end normally, and passes on an exception in front of the `return`. -/
def Stmt.Spares (machine : Machine) (rounds : Nat) (dead lost : List String) (stmt : Stmt) : Prop :=
  ∀ resources body catches finallyBody, stmt.kind = .tryBlock resources body catches finallyBody →
    ((Focus.stmt (.ofKind (.tryBlock resources body catches none))).HasReturn →
      (resources ≠ [] → machine.LocalsApart ∧ machine.ClosesResources) ∧
      ∀ last, finallyBody = some last → (∀ name ∈ dead, Ignores name (last.run machine rounds)) ∧
        ∀ state, ∃ state', last.run machine rounds state = some (.normal, state')) ∧
    (lost ≠ [] → (Focus.block body).HasReturn → CatchClause.PassOn machine rounds lost catches)

/-- Whether this is so for all statements that paths lead to. -/
def Focus.Spares (machine : Machine) (rounds : Nat) (dead lost : List String) (focus : Focus) :
    Prop :=
  ∀ path stmt, focus.at? path = some (.stmt stmt) → stmt.Spares machine rounds dead lost

/-- Whether one part of a body ends like another one wherever it is executed. -/
def Focus.RunsLike (machine : Machine) (rounds : Nat) (dead lost : List String) :
    Focus → Focus → Prop
  | .block body, .block body' =>
    ∀ state, EndsLike dead lost (body.run machine rounds state) (body'.run machine rounds state)
  | .stmt inner, .stmt inner' => ∀ labels state, EndsLike dead lost
      (inner.run machine rounds labels state) (inner'.run machine rounds labels state)
  | _, _ => False

theorem Focus.Spares.child? {focus part : Focus} {step : Step}
    (h : focus.Spares machine rounds dead lost) (hchild : focus.child? step = some part) :
    part.Spares machine rounds dead lost := by
  intro path stmt hat
  refine h (step :: path) stmt ?_
  rw [Focus.at?, hchild]
  exact hat

theorem Focus.Swap.spares {step : Step} {part new focus focus' : Focus}
    (hswap : Swap step part new focus focus') (h : focus.Spares machine rounds dead lost)
    (hnew : new.Spares machine rounds dead lost)
    (hself : ∀ stmt, focus' = .stmt stmt → stmt.Spares machine rounds dead lost) :
    focus'.Spares machine rounds dead lost := by
  intro path stmt hat
  cases path with
  | nil => exact hself stmt (Option.some.inj hat)
  | cons other rest =>
    by_cases hstep : other = step
    · subst hstep
      rw [Focus.at?, hswap.child?_new] at hat
      exact hnew rest stmt hat
    · refine h (other :: rest) stmt ?_
      rw [Focus.at?, ← hswap.child?_other hstep]
      exact hat

/-! ### Statements around a return -/

theorem runAll_endsLike {old new : List Stmt}
    (h : ∀ state, EndsLike dead lost (Stmt.runAll machine rounds old state)
      (Stmt.runAll machine rounds new state)) (before after : List Stmt) (state : machine.State) :
    EndsLike dead lost (Stmt.runAll machine rounds (before ++ old ++ after) state)
      (Stmt.runAll machine rounds (before ++ new ++ after) state) := by
  rw [List.append_assoc, List.append_assoc, Advice.runAll_append, Advice.runAll_append]
  refine EndsLike.andThen_same (fun middle => ?_) _
  rw [Advice.runAll_append, Advice.runAll_append]
  exact (h middle).andThen fun _ => .same _

theorem handle_endsLike {clause : CatchClause} {new : Block}
    (h : ∀ state, EndsLike dead lost (clause.body.run machine rounds state)
      (new.run machine rounds state)) (before after : List CatchClause) (thrown : machine.Value)
    (state : machine.State) :
    EndsLike dead lost (CatchClause.handle machine rounds (before ++ clause :: after) thrown state)
      (CatchClause.handle machine rounds (before ++ { clause with body := new } :: after) thrown
        state) := by
  obtain ⟨id, annotations, modifiers, types, name, body⟩ := clause
  induction before with
  | nil =>
    simp only [List.nil_append, CatchClause.handle]
    split
    · exact h _
    · exact .same _
  | cons first before ih =>
    obtain ⟨_, _, _, _, _, _⟩ := first
    simp only [List.cons_append, CatchClause.handle]
    split
    · exact .same _
    · exact ih

theorem runFrom_endsLike {case : SwitchCase} {new : Block}
    (h : ∀ state, EndsLike dead lost (case.body.run machine rounds state)
      (new.run machine rounds state)) (before after : List SwitchCase) (first : Nat)
    (state : machine.State) :
    EndsLike dead lost (SwitchCase.runFrom machine rounds (before ++ case :: after) first state)
      (SwitchCase.runFrom machine rounds (before ++ { case with body := new } :: after) first
        state) := by
  obtain ⟨comments, labels, isDefault, form, body⟩ := case
  induction before generalizing first state with
  | nil =>
    cases first with
    | succ first => exact .same _
    | zero =>
      simp only [List.nil_append, SwitchCase.runFrom]
      exact (h state).andThen fun _ => .same _
  | cons other before ih =>
    obtain ⟨_, _, _, _, _⟩ := other
    cases first with
    | succ first => exact ih first state
    | zero =>
      simp only [List.cons_append, SwitchCase.runFrom]
      refine EndsLike.andThen_same (fun middle => ?_) _
      split
      · exact ih 0 middle
      · exact .same _

section Around

variable {layout : Layout} {trailing : Option Comment}

theorem thenBranch_endsLike {yes new : Stmt}
    (h : (Focus.stmt yes).RunsLike machine rounds dead lost (.stmt new)) (cond : Expr)
    (no : Option Stmt) :
    (Focus.stmt ⟨layout, trailing, .ifElse cond yes no⟩).RunsLike machine rounds dead lost
      (.stmt ⟨layout, trailing, .ifElse cond new no⟩) := by
  intro labels state
  cases no with
  | none =>
    refine EndsLike.withValue (fun value state => ?_) _
    split
    · exact h [] state
    · exact .same _
  | some no =>
    refine EndsLike.withValue (fun value state => ?_) _
    split
    · exact h [] state
    · exact .same _

theorem forLoop_endsLike {body new : Stmt}
    (h : (Focus.stmt body).RunsLike machine rounds dead lost (.stmt new)) (init : ForInit)
    (cond : Option Expr) (update : List Expr) :
    (Focus.stmt ⟨layout, trailing, .forLoop init cond update body⟩).RunsLike machine rounds dead lost
      (.stmt ⟨layout, trailing, .forLoop init cond update new⟩) := by
  intro labels state
  have hround (state : machine.State) : EndsLike dead lost
      (Machine.andThen (resume labels (body.run machine rounds [] state)) (evalAll update))
      (Machine.andThen (resume labels (new.run machine rounds [] state)) (evalAll update)) :=
    ((h [] state).resume labels).andThen fun _ => .same _
  cases cond with
  | none =>
    exact EndsLike.andThen_same (fun state => (EndsLike.repeatRound hround rounds state).leave) _
  | some cond =>
    exact EndsLike.andThen_same
      (fun state => (EndsLike.repeatRound (EndsLike.whileTrue hround cond) rounds state).leave) _

/-- A `finally` block is run after what ends alike. -/
theorem finallyBlock_endsLike {resources : List Resource} {body : Block} {catches : List CatchClause}
    {finallyBody : Option Block} {guarded guarded' : machine.State → machine.Outcome}
    (h : ∀ state, EndsLike dead lost (guarded state) (guarded' state)) (hlost : lost ⊆ dead)
    (hspares : Stmt.Spares machine rounds dead lost
      ⟨layout, trailing, .tryBlock resources body catches finallyBody⟩)
    (hreturn : (Focus.stmt (.ofKind (.tryBlock resources body catches none))).HasReturn)
    {last : Block} (hlast : finallyBody = some last) (state : machine.State) :
    EndsLike dead lost (Machine.finish (guarded state) (last.run machine rounds))
      (Machine.finish (guarded' state) (last.run machine rounds)) := by
  obtain ⟨hignores, hnormal⟩ := ((hspares _ _ _ _ rfl).1 hreturn).2 last hlast
  exact (h state).finish_ignoring hlost hignores hnormal

theorem tryBody_endsLike {resources : List Resource} {body new : Block} {catches : List CatchClause}
    {finallyBody : Option Block} (hlost : lost ⊆ dead)
    (h : (Focus.block body).RunsLike machine rounds dead lost (.block new))
    (hspares : Stmt.Spares machine rounds dead lost
      ⟨layout, trailing, .tryBlock resources body catches finallyBody⟩)
    (hreturn : (Focus.block body).HasReturn) :
    (Focus.stmt ⟨layout, trailing, .tryBlock resources body catches finallyBody⟩).RunsLike machine
      rounds dead lost (.stmt ⟨layout, trailing, .tryBlock resources new catches finallyBody⟩) := by
  intro labels state
  have haround := @Focus.HasReturn.of_child? (.stmt (.ofKind (.tryBlock resources body catches none)))
    _ .body rfl hreturn
  obtain ⟨hafter, hpasses⟩ := hspares _ _ _ _ rfl
  have hguarded (state : machine.State) :=
    (EndsLike.usingAll h (hafter haround).1 state).handling_passing fun hsome =>
      ⟨(hpasses hsome hreturn).ignores, (hpasses hsome hreturn).throws⟩
  cases finallyBody with
  | none => exact hguarded state
  | some last => exact finallyBlock_endsLike hguarded hlost hspares haround rfl state

theorem catchBlock_endsLike {resources : List Resource} {body : Block} {before after : List CatchClause}
    {clause : CatchClause} {finallyBody : Option Block} {new : Block} (hlost : lost ⊆ dead)
    (h : (Focus.block clause.body).RunsLike machine rounds dead lost (.block new))
    (hspares : Stmt.Spares machine rounds dead lost
      ⟨layout, trailing, .tryBlock resources body (before ++ clause :: after) finallyBody⟩)
    (hreturn : (Focus.block clause.body).HasReturn) :
    (Focus.stmt
        ⟨layout, trailing, .tryBlock resources body (before ++ clause :: after) finallyBody⟩).RunsLike
      machine rounds dead lost (.stmt ⟨layout, trailing,
        .tryBlock resources body (before ++ { clause with body := new } :: after) finallyBody⟩) := by
  intro labels state
  have haround := @Focus.HasReturn.of_child?
    (.stmt (.ofKind (.tryBlock resources body (before ++ clause :: after) none))) _
    (.catchBlock before.length) (by simp [Focus.child?, Stmt.ofKind]) hreturn
  have hguarded (state : machine.State) :=
    EndsLike.handling (handle_endsLike h before after) (usingAll (body.run machine rounds) resources state)
  cases finallyBody with
  | none => exact hguarded state
  | some last => exact finallyBlock_endsLike hguarded hlost hspares haround rfl state

theorem caseBlock_endsLike {case : SwitchCase} {new : Block}
    (h : (Focus.block case.body).RunsLike machine rounds dead lost (.block new)) (selector : Expr)
    (before after : List SwitchCase) :
    (Focus.stmt ⟨layout, trailing, .switch selector (before ++ case :: after)⟩).RunsLike machine
      rounds dead lost (.stmt
        ⟨layout, trailing, .switch selector (before ++ { case with body := new } :: after)⟩) := by
  intro labels state
  refine EndsLike.withValue (fun subject state => ?_) _
  have hlabels : (before ++ { case with body := new } :: after).map
      (fun case => (case.labels, case.isDefault)) =
      (before ++ case :: after).map fun case => (case.labels, case.isDefault) := by simp
  rw [hlabels]
  split
  · exact (runFrom_endsLike h before after _ state).leave
  · exact .same _

end Around

/-- A part around a `return` that ends like another one makes what is around it do so. -/
theorem Focus.Swap.runsLike {step : Step} {part new focus focus' : Focus}
    (hswap : Swap step part new focus focus') (hlost : lost ⊆ dead) (hreturn : part.HasReturn)
    (hspares : focus.Spares machine rounds dead lost)
    (h : part.RunsLike machine rounds dead lost new) :
    focus.RunsLike machine rounds dead lost focus' := by
  cases hswap with
  | @stmt before after endComments closing old new =>
    intro state
    have hsingle : ∀ state, EndsLike dead lost (Stmt.runAll machine rounds [old] state)
        (Stmt.runAll machine rounds [new] state) := fun state =>
      (h [] state).andThen fun _ => .same _
    simpa [Block.run] using runAll_endsLike hsingle before after state
  | nested => exact fun _ => h
  | thenBranch => exact thenBranch_endsLike h _ _
  | elseBranch =>
    intro labels state
    refine EndsLike.withValue (fun value state => ?_) _
    split
    · exact .same _
    · exact h [] state
  | @whileLoop layout trailing cond old new =>
    intro labels state
    exact (EndsLike.repeatRound (EndsLike.whileTrue (fun state => (h [] state).resume labels) cond)
      rounds state).leave
  | doWhile =>
    intro labels state
    exact (EndsLike.repeatRound (fun state =>
      ((h [] state).resume labels).andThen fun _ => .same _) rounds state).leave
  | forLoop => exact forLoop_endsLike h _ _ _
  | @forEach layout trailing var iterable old new =>
    obtain ⟨_, _, _, _, name⟩ := var
    intro labels state
    refine EndsLike.withValue (fun collection state => ?_) _
    exact (EndsLike.repeatRound (EndsLike.nextItem (fun state => (h [] state).resume labels)
      collection name) rounds state).leave
  | @labeled layout trailing label old new =>
    intro labels state
    exact (h (label :: labels) state).leaveLabel label
  | tryBody => exact tryBody_endsLike hlost h (hspares [] _ rfl) hreturn
  | sync =>
    intro labels state
    exact EndsLike.withValue (fun _ => h) _
  | catchBlock => exact catchBlock_endsLike hlost h (hspares [] _ rfl) hreturn
  | finallyBlock =>
    intro labels state
    exact EndsLike.finish h _
  | caseBlock => exact caseBlock_endsLike h _ _ _

/-- A `try` statement around a part that ends alike still runs nothing that notices the variables. -/
theorem Focus.Swap.spares_self {step : Step} {part new focus focus' : Focus}
    (hswap : Swap step part new focus focus') (hreturn : part.HasReturn)
    (hspares : focus.Spares machine rounds dead lost)
    (h : part.RunsLike machine rounds dead lost new)
    (stmt : Stmt) (hself : focus' = .stmt stmt) : stmt.Spares machine rounds dead lost := by
  cases hswap with
  | @tryBody layout trailing resources catches finallyBody old new =>
    cases hself
    rintro _ _ _ _ ⟨⟩
    obtain ⟨hafter, hpasses⟩ := hspares [] _ rfl resources old catches finallyBody rfl
    exact ⟨fun _ => hafter (@Focus.HasReturn.of_child? _ _ .body rfl hreturn),
      fun hsome _ => hpasses hsome hreturn⟩
  | @catchBlock layout trailing resources body before after clause finallyBody new =>
    cases hself
    rintro _ _ _ _ ⟨⟩
    obtain ⟨hafter, hpasses⟩ := hspares [] _ rfl resources body _ finallyBody rfl
    refine ⟨fun _ => hafter (@Focus.HasReturn.of_child? _ _ (.catchBlock before.length)
      (by simp [Focus.child?, Stmt.ofKind]) hreturn), fun hsome hbody => ?_⟩
    exact absurd hreturn ((hpasses hsome hbody).noReturn clause (by simp))
  | @finallyBlock layout trailing resources body catches old new =>
    cases hself
    rintro _ _ _ _ ⟨⟩
    obtain ⟨hafter, hpasses⟩ := hspares [] _ rfl resources body catches (some old) rfl
    refine ⟨fun haround => ?_, hpasses⟩
    obtain ⟨hresources, hfinally⟩ := hafter haround
    obtain ⟨hignores, hnormal⟩ := hfinally old rfl
    -- A block that ends normally and ends like another one runs like it.
    have hsame : new.run machine rounds = old.run machine rounds := by
      funext state
      have hends := h state
      obtain ⟨state', hstate'⟩ := hnormal state
      rw [hstate'] at hends ⊢
      exact hends.eq_of_normal
    refine ⟨hresources, ?_⟩
    rintro _ ⟨⟩
    rw [hsame]
    exact ⟨hignores, hnormal⟩
  | stmt => cases hself
  | _ =>
    cases hself
    rintro _ _ _ _ ⟨⟩

/-- A change of what a path leads to, at a `return`, that ends like what was there. -/
theorem Focus.runsLike_update? {change : Focus → Option Focus} {focus focus' : Focus}
    {path : StmtPath} (h : focus.update? change path = some focus') (hlost : lost ⊆ dead)
    (hspares : focus.Spares machine rounds dead lost)
    (hpart : ∀ part new, focus.at? path = some part → change part = some new →
      part.Fits new ∧ part.HasReturn ∧ part.RunsLike machine rounds dead lost new ∧
        (part.Spares machine rounds dead lost → new.Spares machine rounds dead lost)) :
    focus.RunsLike machine rounds dead lost focus' ∧ focus'.Spares machine rounds dead lost := by
  have hrel : focus.Fits focus' ∧ focus.HasReturn ∧ (focus.Spares machine rounds dead lost →
      focus.RunsLike machine rounds dead lost focus' ∧
        focus'.Spares machine rounds dead lost) := by
    refine Focus.update?_rel
      (R := fun part new => part.Fits new ∧ part.HasReturn ∧
        (part.Spares machine rounds dead lost → part.RunsLike machine rounds dead lost new ∧
          new.Spares machine rounds dead lost))
      (fun _ _ h => h.1) ?_ h ?_
    · intro step part new focus focus' hswap ⟨_, hreturn, hlike⟩
      refine ⟨hswap.fits, hreturn.of_child? hswap.child?_old, fun hspares => ?_⟩
      obtain ⟨hruns, hnew⟩ := hlike (hspares.child? hswap.child?_old)
      exact ⟨hswap.runsLike hlost hreturn hspares hruns,
        hswap.spares hspares hnew (hswap.spares_self hreturn hspares hruns)⟩
    · intro part new hat hnew
      obtain ⟨hfits, hreturn, hruns, hkeeps⟩ := hpart part new hat hnew
      exact ⟨hfits, hreturn, fun hspares => ⟨hruns, hkeeps hspares⟩⟩
  exact hrel.2.2 hspares

end AdviceMigration.Source
