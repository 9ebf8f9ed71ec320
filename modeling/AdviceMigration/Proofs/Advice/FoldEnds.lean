import AdviceMigration.Proofs.Advice.FoldOutcome

/-!
# How a folded return ends

An assigned expression may throw or not end. The `return` that has taken it in then does the same, since no expression with an effect comes to stand in front of another one; but assignments that had been executed before are gone, so after the exception their variables may have other values. Expressions without effects may change places freely, which shows if one of them throws. So all this holds only where these have values.
-/

namespace AdviceMigration.Advice

open AdviceMigration.Source AdviceMigration.Execution AdviceMigration.Execution.Machine

variable {machine : Machine}

/-- Whether an expression has values unless it has side effects. -/
def IsSure (machine : Machine) (expr : Expr) : Prop :=
  hasSideEffects expr = false → machine.HasValue expr

theorem withValues_cons (expr : Expr) (rest : List Expr) (state : machine.State)
    (next : List machine.Value → machine.State → machine.Outcome) :
    withValues (machine.evalItems (expr :: rest) state) next =
      withValue (machine.eval expr state) fun value state =>
        withValues (machine.evalItems rest state) fun values state => next (value :: values) state := by
  rw [evalItems]
  rcases machine.eval expr state with _ | ⟨thrown | value, middle⟩
  · rfl
  · rfl
  · dsimp only [withValue]
    rcases machine.evalItems rest middle with _ | ⟨thrown | values, last⟩ <;> rfl

theorem withValues_append (exprs exprs' : List Expr) (state : machine.State)
    (next : List machine.Value → machine.State → machine.Outcome) :
    withValues (machine.evalItems (exprs ++ exprs') state) next =
      withValues (machine.evalItems exprs state) fun front state =>
        withValues (machine.evalItems exprs' state) fun back state => next (front ++ back) state := by
  induction exprs generalizing state next with
  | nil => rfl
  | cons expr rest ih =>
    rw [List.cons_append, withValues_cons, withValues_cons]
    simp only [ih, List.cons_append]

theorem evalItems_assign (h : machine.RespectsEffects) {exprs : List Expr}
    {name : String} (hmentions : ∀ expr ∈ exprs, mentionsAny [name] expr = false)
    (state : machine.State) (value : machine.Value) :
    machine.evalItems exprs (machine.assign state name value) =
      (machine.evalItems exprs state).map fun evaluated =>
        (evaluated.1, machine.assign evaluated.2 name value) := by
  induction exprs generalizing state with
  | nil => rfl
  | cons expr rest ih =>
    obtain ⟨hexpr, hrest⟩ := List.forall_mem_cons.1 hmentions
    rw [evalItems, evalItems, h.apart hexpr]
    rcases machine.eval expr state with _ | ⟨thrown | first, middle⟩
    · rfl
    · rfl
    · dsimp only [Option.map_some]
      rw [ih hrest]
      rcases machine.evalItems rest middle with _ | ⟨thrown | others, last⟩ <;> rfl

/-! ### One value that moves -/

section Moved

variable {left right : List Expr} {name : String} {value : Expr} {lost : List String}

/-- Expressions after which one variable differs end alike. -/
theorem withValues_assign (hmachine : machine.RespectsEffects) {exprs : List Expr}
    (hmentions : ∀ expr ∈ exprs, mentionsAny [name] expr = false)
    (hlost : (∃ expr ∈ exprs, ¬ machine.HasValue expr) → name ∈ lost)
    {next next' : List machine.Value → machine.State → machine.Outcome} (assigned : machine.Value)
    (hnext : ∀ values state, EndsLike [name] lost
      (next values (machine.assign state name assigned)) (next' values state))
    (state : machine.State) :
    EndsLike [name] lost
      (withValues (machine.evalItems exprs (machine.assign state name assigned)) next)
      (withValues (machine.evalItems exprs state) next') := by
  rw [evalItems_assign hmachine hmentions]
  cases hitems : machine.evalItems exprs state with
  | none => exact .same _
  | some evaluated =>
    obtain ⟨thrown | values, last⟩ := evaluated
    · refine .threw thrown (.assign .refl (hlost ?_) assigned)
      by_contra hall
      have hvalues : ∀ expr ∈ exprs, machine.HasValue expr := fun expr hexpr =>
        by_contra fun hnone => hall ⟨expr, hexpr, hnone⟩
      obtain ⟨values, state', hyields⟩ := exists_yieldsAll hvalues state
      cases hitems.symm.trans hyields
    · exact hnext values last

/-- Expressions without effects leave the state alone, and constants have their values in every state. -/
theorem yieldsAll_pure (hmachine : machine.RespectsEffects) {exprs : List Expr}
    (hpure : ∀ expr ∈ exprs, hasSideEffects expr = false) {state state' : machine.State}
    {values : List machine.Value} (h : YieldsAll exprs state values state') :
    state' = state ∧ ((∀ expr ∈ exprs, isConstant expr = true) →
      ∀ start : machine.State, YieldsAll exprs start values start) := by
  induction exprs generalizing values with
  | nil =>
    obtain ⟨rfl, rfl⟩ := yieldsAll_nil.1 h
    exact ⟨rfl, fun _ start => yieldsAll_nil.2 ⟨rfl, rfl⟩⟩
  | cons expr rest ih =>
    obtain ⟨hexpr, hrest⟩ := List.forall_mem_cons.1 hpure
    obtain ⟨first, middle, others, hfirst, hothers, rfl⟩ := yieldsAll_cons.1 h
    obtain rfl := hmachine.unchanged hexpr hfirst
    obtain ⟨rfl, hconstants⟩ := ih hrest hothers
    refine ⟨rfl, fun hconstant start => ?_⟩
    obtain ⟨hconstant', hconstants'⟩ := List.forall_mem_cons.1 hconstant
    exact yieldsAll_cons.2 ⟨first, start, others,
      (hmachine.yields_of_constant hconstant' hfirst).2 start, hconstants hconstants' start, rfl⟩

/-- What stands in front of a value that is no constant and does not conflict with it has the same values before and after it. -/
theorem yieldsAll_around (hmachine : machine.RespectsEffects)
    (hconflicts : ∀ other ∈ left, conflicts other value = false) (hconstant : isConstant value = false)
    (hsure : ∀ other ∈ left, IsSure machine other) (state : machine.State) :
    ∃ values, YieldsAll left state values state ∧
      ∀ assigned middle, Yields value state assigned middle → YieldsAll left middle values middle := by
  have hapart : ∀ other ∈ left, hasSideEffects other = false ∧
      (hasSideEffects value = true → isConstant other = true) := by
    intro other hother
    have hnot := hconflicts other hother
    rw [conflicts, hconstant, Bool.not_false, Bool.and_true, Bool.or_eq_false_iff] at hnot
    refine ⟨hnot.1, fun heffect => ?_⟩
    simpa [heffect] using hnot.2
  have hpure : ∀ other ∈ left, hasSideEffects other = false := fun other hother =>
    (hapart other hother).1
  obtain ⟨values, state', hall⟩ := exists_yieldsAll
    (fun other hother => hsure other hother (hpure other hother)) state
  obtain ⟨rfl, hconstants⟩ := yieldsAll_pure hmachine hpure hall
  refine ⟨values, hall, fun assigned middle hvalue => ?_⟩
  cases heffect : hasSideEffects value with
  | false =>
    obtain rfl := hmachine.unchanged heffect hvalue
    exact hall
  | true => exact hconstants (fun other hother => (hapart other hother).2 heffect) middle

/-- A value that is evaluated first and read from its variable ends like one in the variable's place. -/
theorem endsLike_moved (hmachine : machine.RespectsEffects) {id : NodeId}
    (hconflicts : ∀ other ∈ left, conflicts other value = false)
    (hmentions : ∀ other ∈ left ++ right, mentionsAny [name] other = false)
    (hsure : ∀ other ∈ left, IsSure machine other) (hvalue : IsSure machine value)
    (hlost : (∃ other ∈ left ++ right, ¬ machine.HasValue other) → name ∈ lost)
    (result : List machine.Value → Option machine.Value) (state : machine.State) :
    EndsLike [name] lost
      (withValue (machine.eval value state) fun assigned middle =>
        withValues (machine.evalItems (left ++ .name id name :: right)
            (machine.assign middle name assigned))
          fun values state => some (.returned (result values), state))
      (withValues (machine.evalItems (left ++ value :: right) state)
        fun values state => some (.returned (result values), state)) := by
  obtain ⟨hleft, hright⟩ := List.forall_mem_append.1 hmentions
  -- From the variable on, both read the same value.
  have hrest (front : List machine.Value) (assigned : machine.Value) (middle : machine.State) :
      EndsLike [name] lost
        (withValues (machine.evalItems (.name id name :: right) (machine.assign middle name assigned))
          fun back state => some (.returned (result (front ++ back)), state))
        (withValues (machine.evalItems right middle)
          fun back state => some (.returned (result (front ++ assigned :: back)), state)) := by
    rw [withValues_cons, eval, withValue, hmachine.lookup_assign]
    refine withValues_assign hmachine hright (fun hnone =>
      hlost (hnone.imp fun _ hother => hother.imp_left (List.mem_append_right _))) assigned (fun values last => ?_) middle
    exact .returned _ (.assign .refl (List.mem_singleton_self _) assigned)
  simp only [withValues_append]
  cases hconstant : isConstant value with
  | true =>
    obtain ⟨assigned, state', hyields⟩ := hvalue (hasSideEffects_of_isConstant hconstant) state
    obtain ⟨rfl, heverywhere⟩ := hmachine.yields_of_constant hconstant hyields
    rw [show machine.eval value state' = _ from hyields, withValue]
    refine withValues_assign hmachine hleft (fun hnone =>
      hlost (hnone.imp fun _ hother => hother.imp_left (List.mem_append_left _))) assigned (fun front middle => ?_) state'
    rw [withValues_cons value, show machine.eval value middle = _ from heverywhere middle, withValue]
    exact hrest front assigned middle
  | false =>
    obtain ⟨front, hfront, haround⟩ := yieldsAll_around hmachine hconflicts hconstant hsure state
    rw [show machine.evalItems left state = _ from hfront, withValues, withValues_cons value]
    cases heval : machine.eval value state with
    | none => exact .same _
    | some evaluated =>
      obtain ⟨thrown | assigned, middle⟩ := evaluated
      · exact .same _
      · rw [withValue, withValue, evalItems_assign hmachine hleft,
          show machine.evalItems left middle = _ from haround assigned middle heval]
        exact hrest front assigned middle

end Moved

/-! ### Assignments in front of a return -/

/-- What one fold does to how a body ends: the assignment and the `return` behind it end like the `return` that has taken the assignment in. -/
theorem endsLike_absorb (hmachine : machine.RespectsEffects) {packed : Bool}
    {pending lost : List String} {items : List Expr} {stmt ret : Stmt} {fold : Fold}
    (hbundles : Bundles packed items ret) (hundisturbed : ∀ item ∈ items, Undisturbed pending item)
    (hfold : foldable? packed pending stmt ret = some fold)
    (hsure : ∀ item ∈ items, IsSure machine item) (hvalue : IsSure machine fold.value)
    (hlost : (∃ item ∈ items, ¬ machine.HasValue item) → fold.name ∈ lost) (rounds : Nat)
    (state : machine.State) :
    EndsLike [fold.name] lost (Stmt.runAll machine rounds [stmt, ret] state)
      (Stmt.runAll machine rounds [absorb packed fold stmt ret] state) := by
  obtain ⟨left, id, right, rfl, -, hconflicts, hmentions, hbundles'⟩ :=
    exists_split_of_foldable? hbundles hundisturbed hfold
  rw [runAll_assign hmachine (foldable?_eq_some hfold).1, hbundles'.runAll_ret]
  simp only [hbundles.runAll_ret]
  refine endsLike_moved hmachine hconflicts hmentions
    (fun other hother => hsure other (List.mem_append_left _ hother)) hvalue
    (fun hnone => hlost (hnone.imp fun other hother => hother.imp_left fun hother => ?_)) _ state
  rcases List.mem_append.1 hother with hother | hother
  · exact List.mem_append_left _ hother
  · exact List.mem_append_right _ (List.mem_cons_of_mem _ hother)

/-- Whether every variable that is assigned in front of an expression that may have no value is among some variables. -/
def LosesOnly (machine : Machine) (lost : List String) : List (String × Expr) → Prop :=
  List.Pairwise fun entry later => ¬ machine.HasValue later.2 → entry.1 ∈ lost

/-- Assignments that have moved and the `return` before end like the `return` that has taken them in. -/
theorem MovesInto.endsLike (hmachine : machine.RespectsEffects) {packed : Bool}
    {before kept moved : List Stmt} {pending lost : List String} {ret ret' : Stmt}
    (h : MovesInto packed before pending ret kept moved ret') {items : List Expr}
    (hbundles : Bundles packed items ret) (hundisturbed : ∀ item ∈ items, Undisturbed pending item)
    (hsure : ∀ item ∈ items, IsSure machine item)
    (hvalues : ∀ entry ∈ assignments moved, IsSure machine entry.2)
    (hitems : (∃ item ∈ items, ¬ machine.HasValue item) →
      ∀ entry ∈ assignments moved, entry.1 ∈ lost)
    (hlost : LosesOnly machine lost (assignments moved)) (rounds : Nat) (state : machine.State) :
    EndsLike ((assignments moved).map Prod.fst) lost
      (Stmt.runAll machine rounds (moved ++ [ret]) state)
      (Stmt.runAll machine rounds [ret'] state) := by
  induction h generalizing items state with
  | stop => exact .same _
  | @move stmt _ _ moved _ ret last fold hfold _ ih =>
    obtain ⟨hassigns, -, -, hvalue, -⟩ := foldable?_eq_some hfold
    obtain ⟨left, id, right, -, hset, -, -, hbundles'⟩ :=
      exists_split_of_foldable? hbundles hundisturbed hfold
    rw [← hset] at hbundles'
    -- The last assignment moves first, so its value is one of the items for those in front of it.
    have hstmt : assignments [stmt] = [(fold.name, fold.value)] := by simp [assignments, hassigns]
    rw [assignments_append, hstmt] at hvalues hitems hlost ⊢
    rw [List.forall_mem_append, List.forall_mem_singleton] at hvalues hitems
    obtain ⟨hmoved, -, hfront⟩ := List.pairwise_append.1 hlost
    have hmoved' : EndsLike ((assignments moved).map Prod.fst) lost
        (Stmt.runAll machine rounds (moved ++ [absorb packed fold stmt ret]) state)
        (Stmt.runAll machine rounds [last] state) := by
      refine ih hbundles' (Undisturbed.set hundisturbed hvalue) (fun item hitem => ?_) hvalues.1
        (fun hnone entry hentry => ?_) hmoved state
      · rcases List.mem_or_eq_of_mem_set hitem with hitem | rfl
        · exact hsure item hitem
        · exact hvalues.2
      · obtain ⟨item, hitem, hnone⟩ := hnone
        rcases List.mem_or_eq_of_mem_set hitem with hitem | rfl
        · exact (hitems ⟨item, hitem, hnone⟩).1 entry hentry
        · exact hfront entry hentry _ (List.mem_singleton_self _) hnone
    have hfirst : EndsLike [fold.name] lost
        (Stmt.runAll machine rounds (moved ++ [stmt, ret]) state)
        (Stmt.runAll machine rounds (moved ++ [absorb packed fold stmt ret]) state) := by
      rw [runAll_append, runAll_append]
      exact .andThen_same (endsLike_absorb hmachine hbundles hundisturbed hfold hsure hvalues.2
        (fun hnone => (hitems hnone).2) rounds) _
    rw [List.append_assoc, List.map_append]
    exact (hfirst.mono (List.subset_append_right _ _) (List.Subset.refl _)).trans
      (hmoved'.mono (List.subset_append_left _ _) (List.Subset.refl _))

/-- Assignments that have moved into a template end like it. -/
theorem MovesInto.endsLike_template (hmachine : machine.RespectsEffects) {names lost : List String}
    {before kept moved : List Stmt} {ret ret' : Stmt}
    (h : MovesInto (1 < names.length) before names ret kept moved ret')
    (htemplate : GivesTemplate names ret)
    (hvalues : ∀ entry ∈ assignments moved, IsSure machine entry.2)
    (hlost : LosesOnly machine lost (assignments moved)) (rounds : Nat) (state : machine.State) :
    EndsLike ((assignments moved).map Prod.fst) lost
      (Stmt.runAll machine rounds (moved ++ [ret]) state)
      (Stmt.runAll machine rounds [ret'] state) := by
  obtain ⟨items, hbundles, hundisturbed, hnames⟩ := @bundles_of_template machine _ _ htemplate
  refine h.endsLike hmachine hbundles hundisturbed (fun item hitem _ => hnames item hitem) hvalues
    (fun hnone => ?_) hlost rounds state
  obtain ⟨item, hitem, hnone⟩ := hnone
  exact absurd (hnames item hitem) hnone

end AdviceMigration.Advice
