import AdviceMigration.Proofs.Execution.Returning

/-!
# Folding keeps results

A chain of folds moves several values past each other and past slots that stay. Every item of a `return` is a variable that is still read by name, or a value that mentions no variable whose assignment may still move. So each single assignment can be taken apart from the rest: its value passes the slots to the left, with which it does not conflict, and the other slots neither read nor write its variable. Executing the assignments and the `return` then gives back the same value as the folded `return` alone, and leaves the same state but for the variables that are no longer assigned.
-/

namespace AdviceMigration.Advice

open AdviceMigration.Source AdviceMigration.Execution AdviceMigration.Execution.Machine

variable {machine : Machine}

/-! ### One value that moves -/

section Moved

variable {left right : List Expr} {id : NodeId} {name : String} {value : Expr}
  {state state' : machine.State} {values : List machine.Value}

/-- A value that is evaluated first and read from its variable may be evaluated in the variable's place. -/
theorem yieldsAll_of_assigned (hmachine : machine.RespectsEffects)
    (hconflicts : ∀ other ∈ left, conflicts other value = false)
    (hmentions : ∀ other ∈ left ++ right, mentionsAny [name] other = false)
    {assigned : machine.Value} {middle : machine.State} (hvalue : Yields value state assigned middle)
    (hall : YieldsAll (left ++ .name id name :: right) (machine.assign middle name assigned) values
      state') :
    ∃ last, YieldsAll (left ++ value :: right) state values last ∧
      state' = machine.assign last name assigned := by
  obtain ⟨hleft, hright⟩ := List.forall_mem_append.1 hmentions
  obtain ⟨front, _, back, hfront, hback, rfl⟩ := yieldsAll_append.1 hall
  obtain ⟨between, hfront', rfl⟩ := (hmachine.yieldsAll_assign hleft).1 hfront
  obtain ⟨others, hothers, rfl⟩ := yieldsAll_name.1 hback
  obtain ⟨last, hothers', rfl⟩ := (hmachine.yieldsAll_assign hright).1 hothers
  obtain ⟨before, hfront'', hvalue'⟩ := (hmachine.swap_all hconflicts).1 ⟨middle, hvalue, hfront'⟩
  refine ⟨last, yieldsAll_append.2 ⟨front, before, _, hfront'', ?_, rfl⟩, rfl⟩
  rw [hmachine.lookup_assign]
  exact yieldsAll_cons.2 ⟨_, _, _, hvalue', hothers', rfl⟩

/-- A value in a slot may be evaluated first and read from a variable there. -/
theorem assigned_of_yieldsAll (hmachine : machine.RespectsEffects)
    (hconflicts : ∀ other ∈ left, conflicts other value = false)
    (hmentions : ∀ other ∈ left ++ right, mentionsAny [name] other = false)
    (hall : YieldsAll (left ++ value :: right) state values state') :
    ∃ assigned middle, Yields value state assigned middle ∧
      YieldsAll (left ++ .name id name :: right) (machine.assign middle name assigned) values
        (machine.assign state' name assigned) := by
  obtain ⟨hleft, hright⟩ := List.forall_mem_append.1 hmentions
  obtain ⟨front, before, _, hfront, hback, rfl⟩ := yieldsAll_append.1 hall
  obtain ⟨assigned, between, others, hvalue, hothers, rfl⟩ := yieldsAll_cons.1 hback
  obtain ⟨middle, hvalue', hfront'⟩ := (hmachine.swap_all hconflicts).2 ⟨before, hfront, hvalue⟩
  refine ⟨assigned, middle, hvalue', yieldsAll_append.2 ⟨front, _, _,
    (hmachine.yieldsAll_assign hleft).2 ⟨between, hfront', rfl⟩, yieldsAll_name.2 ⟨others,
    (hmachine.yieldsAll_assign hright).2 ⟨state', hothers, rfl⟩, ?_⟩, rfl⟩⟩
  rw [hmachine.lookup_assign]

end Moved

/-! ### Values of several expressions -/

/-- What evaluating expressions from left to right gives. -/
abbrev EvaluatedAll (machine : Machine) : Type :=
  Option (Except machine.Value (List machine.Value) × machine.State)

/-- Goes on with the values of expressions; an exception ends the statement. -/
def withValues (evaluated : EvaluatedAll machine)
    (next : List machine.Value → machine.State → machine.Outcome) : machine.Outcome :=
  match evaluated with
  | some (.ok values, state) => next values state
  | some (.error thrown, state) => some (.threw thrown, state)
  | none => none

/-! ### One assignment in front of a return -/

/-- Whether a `return` gives back items: those of an array, or a single one. -/
inductive Bundles : (packed : Bool) → List Expr → Stmt → Prop where
  | single {item : Expr} {ret : Stmt} (hret : ret.kind = .ret (some item)) : Bundles false [item] ret
  | array {element : TypeRef} {dims : List (Option Expr)} {items : List Expr} {ret : Stmt}
      (hret : ret.kind = .ret (some (.newArray element dims (some items)))) : Bundles true items ret

/-- The values of items as one. -/
def bundle (machine : Machine) (packed : Bool) (values : List machine.Value) :
    Option machine.Value :=
  if packed then some (machine.array values) else values.head?

namespace Bundles

variable {packed : Bool} {items : List Expr} {ret : Stmt}

theorem slots_eq (h : Bundles packed items ret) : slots packed ret = items := by
  cases h with
  | single hret => simp [slots, hret]
  | array hret => simp [slots, hret]

/-- A slot that has another value is a slot still. -/
theorem absorb (h : Bundles packed items ret) {fold : Fold} (hslot : fold.slot < items.length)
    (stmt : Stmt) : Bundles packed (items.set fold.slot fold.value) (absorb packed fold stmt ret) := by
  cases h with
  | single hret =>
    have hzero : fold.slot = 0 := Nat.lt_one_iff.1 hslot
    rw [hzero]
    exact .single (by simp [withSlot, hret])
  | @array element dims _ _ hret =>
    exact @Bundles.array element dims _ _ (by simp [withSlot, hret])

/-- What a `return` ends with is made of the values of its items. -/
theorem runAll_ret (h : Bundles packed items ret) (rounds : Nat) (state : machine.State) :
    Stmt.runAll machine rounds [ret] state = withValues (machine.evalItems items state)
      fun values state => some (.returned (bundle machine packed values), state) := by
  have hret (expr : Expr) (hkind : ret.kind = .ret (some expr)) :
      Stmt.runAll machine rounds [ret] state = withValue (machine.eval expr state)
        fun result state => some (.returned (some result), state) := by
    obtain ⟨layout, trailing, kind⟩ := ret
    dsimp only at hkind
    subst hkind
    rw [Stmt.runAll, Stmt.run, StmtKind.run]
    rcases machine.eval expr state with _ | ⟨thrown | result, final⟩ <;> rfl
  cases h with
  | @single item _ hkind =>
    rw [hret item hkind, evalItems]
    rcases machine.eval item state with _ | ⟨thrown | result, final⟩ <;> rfl
  | @array element dims items _ hkind =>
    rw [hret _ hkind, eval]
    rcases machine.evalItems items state with _ | ⟨thrown | values, final⟩ <;> rfl

/-- What a `return` gives back is made of the values of its items. -/
theorem runAll_eq (h : Bundles packed items ret) {rounds : Nat} {state state' : machine.State}
    {value : Option machine.Value} :
    Stmt.runAll machine rounds [ret] state = some (.returned value, state') ↔
      ∃ values, YieldsAll items state values state' ∧ value = bundle machine packed values := by
  rw [h.runAll_ret]
  simp only [YieldsAll]
  rcases machine.evalItems items state with _ | ⟨thrown | values, final⟩
  · simp [withValues]
  · simp [withValues]
  · simp [withValues, eq_comm, and_comm]

end Bundles

/-- Whether an item is a variable's name or mentions none of the variables whose assignments may still move. -/
def Undisturbed (pending : List String) (item : Expr) : Prop :=
  (∃ name, item.name? = some name) ∨ mentionsAny pending item = false

theorem mentionsAny_eq_false_of_subset {names names' : List String} {expr : Expr}
    (h : mentionsAny names expr = false) (hsubset : names' ⊆ names) :
    mentionsAny names' expr = false := by
  rw [mentionsAny, List.any_eq_false] at h ⊢
  intro event hevent hmentions
  refine h event hevent ?_
  cases event with
  | use role name id =>
    simp only [Event.mentions, List.contains_iff_mem] at hmentions ⊢
    exact hsubset hmentions
  | _ => cases hmentions

/-- An item that is not the name of a pending variable does not mention that variable. -/
theorem Undisturbed.mentionsAny_eq_false {pending : List String} {item : Expr} (h : Undisturbed pending item)
    {name : String} (hpending : name ∈ pending) (hname : item.name? ≠ some name) :
    mentionsAny [name] item = false := by
  rcases h with ⟨other, hother⟩ | hmentions
  · obtain ⟨id, rfl⟩ := name?_eq_some_iff.1 hother
    have hne : other ≠ name := fun heq => hname (heq ▸ hother)
    simpa [mentionsAny, Expr.events, Event.mentions] using hne
  · exact mentionsAny_eq_false_of_subset hmentions (by simpa using hpending)

/-- Exactly one item is the name of the variable whose slot is found. -/
theorem onlySlot?_eq_some {name : String} {items : List Expr} {slot : Nat}
    (h : onlySlot? name items = some slot) : ∃ left id right,
      items = left ++ .name id name :: right ∧ left.length = slot ∧
        ∀ other ∈ left ++ right, other.name? ≠ some name := by
  rw [onlySlot?] at h
  split at h
  next hcount =>
    obtain ⟨item, hitem, hname⟩ := getElem?_of_findIdx? h
    obtain ⟨left, right, rfl, rfl⟩ := Focus.exists_split_of_getElem? hitem
    obtain ⟨id, rfl⟩ := name?_eq_some_iff.1 (eq_of_beq hname)
    refine ⟨left, id, right, rfl, rfl, fun other hother heq => ?_⟩
    have hsplit : left.countP (isName name) + (right.countP (isName name) + 1) = 1 := by
      rw [beq_iff_eq, List.countP_append, List.countP_cons_of_pos hname] at hcount
      exact hcount
    have hnone : (left ++ right).countP (isName name) = 0 := by
      rw [List.countP_append]
      omega
    exact List.countP_eq_zero.1 hnone other hother (beq_iff_eq.2 heq)
  next => cases h

theorem kind_of_assignment?_eq {stmt : Stmt} {name : String} {value : Expr}
    (h : assignment? stmt = some (name, value)) :
    ∃ id, stmt.kind = .expr (.assign (.name id name) .assign value) := by
  rw [assignment?] at h
  split at h
  next hkind =>
    cases h
    exact ⟨_, hkind⟩
  next => cases h

/-- After an assignment in front of them, other statements are executed with the value it has given its variable. -/
theorem runAll_assign (hmachine : machine.RespectsEffects) {stmt : Stmt} {name : String}
    {value : Expr} (hassigns : assignment? stmt = some (name, value)) (rounds : Nat)
    (rest : List Stmt) (state : machine.State) :
    Stmt.runAll machine rounds (stmt :: rest) state =
      withValue (machine.eval value state) fun assigned middle =>
        Stmt.runAll machine rounds rest (machine.assign middle name assigned) := by
  obtain ⟨id, hkind⟩ := kind_of_assignment?_eq hassigns
  obtain ⟨layout, trailing, kind⟩ := stmt
  dsimp only at hkind
  subst hkind
  rw [Stmt.runAll, Stmt.run, StmtKind.run, hmachine.eval_assign]
  rcases machine.eval value state with _ | ⟨thrown | assigned, final⟩ <;> rfl

/-- An assignment goes on where its value has one, in a state that has it. -/
theorem runAll_assignment (hmachine : machine.RespectsEffects) {stmt : Stmt} {name : String}
    {value : Expr} (hassigns : assignment? stmt = some (name, value)) {rounds : Nat}
    {rest : List Stmt} {state state' : machine.State} {result : Option machine.Value} :
    Stmt.runAll machine rounds (stmt :: rest) state = some (.returned result, state') ↔
      ∃ assigned middle, Yields value state assigned middle ∧
        Stmt.runAll machine rounds rest (machine.assign middle name assigned) =
          some (.returned result, state') := by
  rw [runAll_assign hmachine hassigns]
  simp only [Yields]
  rcases machine.eval value state with _ | ⟨thrown | assigned, final⟩
  · simp [withValue]
  · simp [withValue]
  · simp [withValue]

/-- A fold finds the variable among the items, with which its value does not conflict and which do not mention it. -/
theorem exists_split_of_foldable? {packed : Bool} {pending : List String} {items : List Expr}
    {stmt ret : Stmt} {fold : Fold} (h : Bundles packed items ret)
    (hundisturbed : ∀ item ∈ items, Undisturbed pending item)
    (hfold : foldable? packed pending stmt ret = some fold) :
    ∃ left id right, items = left ++ .name id fold.name :: right ∧
      items.set fold.slot fold.value = left ++ fold.value :: right ∧
      (∀ other ∈ left, conflicts other fold.value = false) ∧
      (∀ other ∈ left ++ right, mentionsAny [fold.name] other = false) ∧
      Bundles packed (left ++ fold.value :: right) (absorb packed fold stmt ret) := by
  obtain ⟨-, hpending, hslot, -, hconflicts⟩ := foldable?_eq_some hfold
  rw [h.slots_eq] at hslot hconflicts
  obtain ⟨left, id, right, rfl, hlength, hothers⟩ := onlySlot?_eq_some hslot
  rw [← hlength, List.take_left] at hconflicts
  have hset : (left ++ .name id fold.name :: right).set fold.slot fold.value =
      left ++ fold.value :: right := by
    rw [← hlength, List.set_append_right _ _ (Nat.le_refl _), Nat.sub_self, List.set_cons_zero]
  refine ⟨left, id, right, rfl, hset, hconflicts, fun other hother => ?_, ?_⟩
  · refine (hundisturbed other ?_).mentionsAny_eq_false hpending (hothers other hother)
    rcases List.mem_append.1 hother with hother | hother
    · exact List.mem_append_left _ hother
    · exact List.mem_append_right _ (List.mem_cons_of_mem _ hother)
  · rw [← hset]
    exact @Bundles.absorb _ _ _ h fold (by simp [← hlength]) stmt

/-- What one fold keeps: the assignment and the `return` behind it return like the `return` that has taken the assignment in. -/
theorem returnAlike_absorb (hmachine : machine.RespectsEffects) {packed : Bool}
    {pending : List String} {items : List Expr} {stmt ret : Stmt} {fold : Fold}
    (hbundles : Bundles packed items ret) (hundisturbed : ∀ item ∈ items, Undisturbed pending item)
    (hfold : foldable? packed pending stmt ret = some fold) (rounds : Nat) (state : machine.State) :
    ReturnAlike [fold.name] (Stmt.runAll machine rounds [stmt, ret] state)
      (Stmt.runAll machine rounds [absorb packed fold stmt ret] state) := by
  have hassigns := (foldable?_eq_some hfold).1
  obtain ⟨left, id, right, rfl, -, hconflicts, hmentions, hbundles'⟩ :=
    exists_split_of_foldable? hbundles hundisturbed hfold
  constructor
  · intro value final heq
    obtain ⟨assigned, middle, hvalue, hret⟩ := (runAll_assignment hmachine hassigns).1 heq
    obtain ⟨values, hvalues, rfl⟩ := hbundles.runAll_eq.1 hret
    obtain ⟨last, hlast, rfl⟩ := yieldsAll_of_assigned hmachine hconflicts hmentions hvalue hvalues
    exact ⟨last, hbundles'.runAll_eq.2 ⟨values, hlast, rfl⟩,
      .assign .refl (List.mem_singleton_self _) assigned⟩
  · intro value final heq
    obtain ⟨values, hvalues, rfl⟩ := hbundles'.runAll_eq.1 heq
    obtain ⟨assigned, middle, hvalue, hall⟩ :=
      assigned_of_yieldsAll hmachine hconflicts hmentions hvalues
    exact ⟨_, (runAll_assignment hmachine hassigns).2 ⟨assigned, middle, hvalue,
      hbundles.runAll_eq.2 ⟨values, hall, rfl⟩⟩, .assign .refl (List.mem_singleton_self _) assigned⟩

/-! ### All assignments in front of a return -/

/-- A value that is moved mentions no variable that is pending then. -/
theorem Undisturbed.set {pending : List String} {items : List Expr}
    (h : ∀ item ∈ items, Undisturbed pending item) {fold : Fold}
    (hvalue : mentionsAny (pending.filter (· != fold.name)) fold.value = false) :
    ∀ item ∈ items.set fold.slot fold.value, Undisturbed (pending.filter (· != fold.name)) item := by
  intro item hitem
  rcases List.mem_or_eq_of_mem_set hitem with hitem | rfl
  · exact (h item hitem).imp_right fun hmentions =>
      mentionsAny_eq_false_of_subset hmentions (List.filter_subset_self _)
  · exact .inr hvalue

/-- The invariant of folding: the assignments that have moved and the `return` before return like the `return` that has taken them in. -/
theorem MovesInto.returnAlike (hmachine : machine.RespectsEffects) {packed : Bool}
    {before kept moved : List Stmt} {pending : List String} {ret ret' : Stmt}
    (h : MovesInto packed before pending ret kept moved ret') {items : List Expr}
    (hbundles : Bundles packed items ret) (hundisturbed : ∀ item ∈ items, Undisturbed pending item) :
    (∃ items', Bundles packed items' ret' ∧
      ∀ item ∈ items', item ∈ items ∨ ∃ name, (name, item) ∈ assignments moved) ∧
    ∀ rounds state, ReturnAlike ((assignments moved).map Prod.fst)
      (Stmt.runAll machine rounds (moved ++ [ret]) state)
      (Stmt.runAll machine rounds [ret'] state) := by
  induction h generalizing items with
  | stop => exact ⟨⟨items, hbundles, fun _ => .inl⟩, fun _ _ => .refl _⟩
  | @move stmt _ _ moved _ ret _ fold hfold _ ih =>
    obtain ⟨hassigns, -, -, hvalue, -⟩ := foldable?_eq_some hfold
    obtain ⟨left, id, right, -, hset, -, -, hbundles'⟩ :=
      exists_split_of_foldable? hbundles hundisturbed hfold
    rw [← hset] at hbundles'
    obtain ⟨⟨items', hbundles'', hitems'⟩, halike⟩ :=
      ih hbundles' (Undisturbed.set hundisturbed hvalue)
    have hstmt : assignments [stmt] = [(fold.name, fold.value)] := by simp [assignments, hassigns]
    rw [assignments_append, hstmt]
    refine ⟨⟨items', hbundles'', fun item hitem => ?_⟩, fun rounds state => ?_⟩
    · rcases hitems' item hitem with hitem | ⟨name, hname⟩
      · rcases List.mem_or_eq_of_mem_set hitem with hitem | rfl
        · exact .inl hitem
        · exact .inr ⟨fold.name, List.mem_append_right _ (List.mem_singleton_self _)⟩
      · exact .inr ⟨name, List.mem_append_left _ hname⟩
    · have hfirst : ReturnAlike [fold.name]
          (Stmt.runAll machine rounds (moved ++ [stmt, ret]) state)
          (Stmt.runAll machine rounds (moved ++ [absorb packed fold stmt ret]) state) := by
        rw [runAll_append, runAll_append]
        exact .andThen (returnAlike_absorb hmachine hbundles hundisturbed hfold rounds) _
      rw [List.append_assoc, List.map_append]
      exact hfirst.trans (halike rounds state) (List.subset_append_right _ _)
        (List.subset_append_left _ _)

/-! ### All returns -/

/-- A template gives back names only. -/
theorem bundles_of_template {names : List String} {ret : Stmt} (h : GivesTemplate names ret) :
    ∃ items, Bundles (1 < names.length) items ret ∧ (∀ item ∈ items, Undisturbed names item) ∧
      ∀ item ∈ items, machine.HasValue item := by
  obtain ⟨expr, hret, htemplate⟩ := h
  cases htemplate with
  | @single id name =>
    exact ⟨_, .single hret, List.forall_mem_singleton.2 (.inl ⟨name, rfl⟩),
      List.forall_mem_singleton.2 fun state => ⟨_, state, rfl⟩⟩
  | @array names items hitems hlength =>
    match names, hlength with
    | [], _ =>
      obtain rfl := List.map_eq_nil_iff.1 hitems
      exact ⟨_, .single hret, List.forall_mem_singleton.2 (.inr rfl),
        List.forall_mem_singleton.2 fun state => ⟨_, state, rfl⟩⟩
    | first :: second :: rest, _ =>
      have hname : ∀ item ∈ items, ∃ name, item.name? = some name := by
        intro item hitem
        have hmem : item.name? ∈ (first :: second :: rest).map some :=
          hitems ▸ List.mem_map_of_mem hitem
        obtain ⟨name, -, heq⟩ := List.mem_map.1 hmem
        exact ⟨name, heq.symm⟩
      refine ⟨items, by simpa using Bundles.array hret, fun item hitem => .inl (hname item hitem),
        fun item hitem state => ?_⟩
      obtain ⟨name, heq⟩ := hname item hitem
      obtain ⟨id, rfl⟩ := name?_eq_some_iff.1 heq
      exact ⟨_, state, rfl⟩

theorem exists_yieldsAll {exprs : List Expr} (h : ∀ expr ∈ exprs, machine.HasValue expr)
    (state : machine.State) : ∃ values state', YieldsAll exprs state values state' := by
  induction exprs generalizing state with
  | nil => exact ⟨_, _, yieldsAll_nil.2 ⟨rfl, rfl⟩⟩
  | cons expr rest ih =>
    obtain ⟨hexpr, hrest⟩ := List.forall_mem_cons.1 h
    obtain ⟨value, middle, hvalue⟩ := hexpr state
    obtain ⟨others, state', hothers⟩ := ih hrest middle
    exact ⟨_, state', yieldsAll_cons.2 ⟨value, middle, others, hvalue, hothers, rfl⟩⟩

/-- Assignments that have moved into a template return like it, and if their values have values, they do return. -/
theorem MovesInto.returnAlike_template (hmachine : machine.RespectsEffects) {names : List String}
    {before kept moved : List Stmt} {ret ret' : Stmt}
    (h : MovesInto (1 < names.length) before names ret kept moved ret')
    (htemplate : GivesTemplate names ret) (rounds : Nat) (state : machine.State) :
    ReturnAlike ((assignments moved).map Prod.fst)
        (Stmt.runAll machine rounds (moved ++ [ret]) state)
        (Stmt.runAll machine rounds [ret'] state) ∧
      ((∀ entry ∈ assignments moved, machine.HasValue entry.2) → ∃ value state',
        Stmt.runAll machine rounds [ret'] state = some (.returned value, state')) := by
  obtain ⟨items, hbundles, hundisturbed, hnames⟩ := @bundles_of_template machine _ _ htemplate
  obtain ⟨⟨items', hbundles', hitems'⟩, halike⟩ := h.returnAlike hmachine hbundles hundisturbed
  refine ⟨halike rounds state, fun hvalues => ?_⟩
  have hall : ∀ item ∈ items', machine.HasValue item := by
    intro item hitem
    rcases hitems' item hitem with hitem | ⟨name, hname⟩
    · exact hnames item hitem
    · exact hvalues _ hname
  obtain ⟨values, state', hyields⟩ := exists_yieldsAll hall state
  exact ⟨_, state', hbundles'.runAll_eq.2 ⟨values, hyields, rfl⟩⟩

/-- A `return` before and after folding: the assignments that moved and the `return` before return like the `return` after, on every machine that respects effects. They do return if the assigned expressions have values. -/
def KeepsReturn (names : List String) (site site' : ReturnSite) : Prop :=
  ∃ kept moved, site.before = kept ++ moved ∧
    (assignments site'.before).Sublist (assignments kept) ∧
    foldInto (1 < names.length) site.before.reverse names site.ret =
      (kept.reverse, site'.ret, moved.length) ∧
    ∀ machine : Machine, machine.RespectsEffects → ∀ rounds state,
      ReturnAlike ((assignments moved).map Prod.fst)
        (Stmt.runAll machine rounds (moved ++ [site.ret]) state)
        (Stmt.runAll machine rounds [site'.ret] state) ∧
      ((∀ entry ∈ assignments moved, machine.HasValue entry.2) → ∃ value state',
        Stmt.runAll machine rounds [site'.ret] state = some (.returned value, state'))

theorem FoldedInto.keepsReturn {names : List String} {site site' : ReturnSite}
    (h : FoldedInto names site site') (htemplate : GivesTemplate names site.ret) :
    KeepsReturn names site site' := by
  obtain ⟨kept, moved, hbefore, hfold, hsublist⟩ := h
  have hmoves := MovesInto.of_foldInto hfold (by rw [hbefore, List.reverse_reverse,
    List.reverse_reverse])
  exact ⟨kept, moved, hbefore, hsublist, hfold, fun machine hmachine rounds state =>
    hmoves.returnAlike_template hmachine htemplate rounds state⟩

/-- Folding keeps what every `return` gives back, and the order of effects. -/
theorem keepsReturn_foldReturns {names : List String} {method : Method} {body : Block}
    (hbody : method.body = some body) (htemplate : ∀ site ∈ body.sites, GivesTemplate names site.ret) :
    ∃ body', (foldReturns method names).1.body = some body' ∧
      List.Forall₂ (KeepsReturn names) body.sites body'.sites := by
  obtain ⟨body', hbody', hfolded⟩ := foldedInto_foldReturns names hbody
  refine ⟨body', hbody', ?_⟩
  rw [List.forall₂_iff_get] at hfolded ⊢
  exact ⟨hfolded.1, fun index hindex hindex' =>
    (hfolded.2 index hindex hindex').keepsReturn (htemplate _ (List.get_mem _ _))⟩

/-! ### A machine that remembers calls -/

/-- The variables of a small machine, and the calls that have been made, last first. -/
structure CallState where
  locals : String → Datum
  calls : List Datum

/-- Gives a value to a variable. -/
def CallState.assign (state : CallState) (name : String) (value : Datum) : CallState :=
  { state with locals := fun other => if other = name then value else state.locals other }

mutual
/-- A call gives back all calls so far, its own with its name and its arguments. Only a call of `fail` throws them. -/
def callValue : Expr → CallState → Except Datum Datum × CallState
  | .name _ name, state => (.ok (state.locals name), state)
  | .literal literal, state => (.ok (.written literal.text), state)
  | .paren inner, state => callValue inner state
  | .newArray _ _ (some items), state =>
    match callValues items state with
    | (.ok values, state) => (.ok (.row values), state)
    | (.error thrown, state) => (.error thrown, state)
  | .assign (.name _ name) .assign value, state =>
    match callValue value state with
    | (.ok value, state) => (.ok value, state.assign name value)
    | (.error thrown, state) => (.error thrown, state)
  | .call _ _ name args, state =>
    match callValues args state with
    | (.ok values, state) =>
      let calls := .row (.written name :: values) :: state.calls
      (if name = "fail" then .error (.row calls) else .ok (.row calls), { state with calls := calls })
    | (.error thrown, state) => (.error thrown, state)
  | _, state => (.ok (.row []), state)

/-- Evaluates expressions from left to right. -/
def callValues : List Expr → CallState → Except Datum (List Datum) × CallState
  | [], state => (.ok [], state)
  | expr :: rest, state =>
    match callValue expr state with
    | (.ok value, state) =>
      match callValues rest state with
      | (.ok values, state) => (.ok (value :: values), state)
      | (.error thrown, state) => (.error thrown, state)
    | (.error thrown, state) => (.error thrown, state)
end

/-- A machine on which assignments and calls take effect and all else does nothing. -/
def callMachine : Machine where
  State := CallState
  Value := Datum
  lookup := fun state name => state.locals name
  assign := CallState.assign
  literal := fun literal => .written literal.text
  array := .row
  evalOther := fun expr state => some (callValue expr state)
  isTrue := literalMachine.isTrue
  selects := fun _ _ _ => false
  isInstance := fun _ _ _ => true
  next := fun _ state => some (.ok none, state)
  close := fun _ state => some (none, state)
  checksAssertions := fun _ => false
  assertionError := fun _ => .row []
  isTrue_true := by decide
  lookup_close := by
    rintro _ state _ _ name ⟨⟩
    rfl

mutual
theorem eval_callMachine (expr : Expr) (state : CallState) :
    callMachine.eval expr state = some (callValue expr state) := by
  match expr with
  | .paren inner => exact eval_callMachine inner state
  | .newArray _ _ (some items) =>
    simp only [eval, callValue]
    rw [evalItems_callMachine items state]
    rcases callValues items state with ⟨thrown | values, final⟩ <;> rfl
  | .name _ _ | .literal _ | .newArray _ _ none | .field _ _ | .call _ _ _ _ | .index _ _
  | .assign _ _ _ | .binary _ _ _ | .unary _ _ | .conditional _ _ _ | .cast _ _
  | .instanceOf _ _ _ | .new _ _ _ _ | .arrayInit _ | .lambda _ _ _ | .methodRef _ _
  | .classLiteral _ | .this | .super | .typeName _ => rfl

theorem evalItems_callMachine (exprs : List Expr) (state : CallState) :
    callMachine.evalItems exprs state = some (callValues exprs state) := by
  match exprs with
  | [] => rfl
  | expr :: rest =>
    simp only [evalItems, callValues]
    rw [eval_callMachine expr state]
    rcases callValue expr state with ⟨thrown | value, middle⟩
    · rfl
    · dsimp only
      rw [evalItems_callMachine rest middle]
      rcases callValues rest middle with ⟨thrown | values, final⟩ <;> rfl
end

theorem callValue_pure (expr : Expr) (h : hasSideEffects expr = false) (state : CallState) :
    ∃ value, callValue expr state = (.ok value, state) := by
  match expr with
  | .paren inner => exact callValue_pure inner h state
  | .newArray _ _ (some _) | .call _ _ _ _ => simp [hasSideEffects, Expr.events] at h
  | .assign target op _ =>
    cases target <;> cases op <;> first
      | exact ⟨_, rfl⟩
      | simp [hasSideEffects, Expr.events] at h
  | .name _ _ | .literal _ | .newArray _ _ none | .field _ _ | .index _ _ | .binary _ _ _
  | .unary _ _ | .conditional _ _ _ | .cast _ _ | .instanceOf _ _ _ | .new _ _ _ _ | .arrayInit _
  | .lambda _ _ _ | .methodRef _ _ | .classLiteral _ | .this | .super | .typeName _ =>
    exact ⟨_, rfl⟩

theorem callValue_constant (expr : Expr) (h : isConstant expr = true) (state state' : CallState) :
    (callValue expr state).1 = (callValue expr state').1 := by
  match expr with
  | .paren inner => exact callValue_constant inner h state state'
  | .literal _ | .binary _ _ _ | .unary _ _ | .conditional _ _ _ | .cast _ _ | .classLiteral _
  | .this => rfl

theorem CallState.assign_comm {name other : String} (hne : other ≠ name) (state : CallState)
    (value value' : Datum) : (state.assign name value).assign other value' =
      (state.assign other value').assign name value := by
  simp only [CallState.assign, CallState.mk.injEq, and_true]
  funext third
  split <;> split <;> simp_all

theorem events_subset_eventsList {exprs : List Expr} {expr : Expr} (h : expr ∈ exprs) :
    expr.events ⊆ Expr.eventsList exprs := by
  induction exprs with
  | nil => cases h
  | cons first rest ih =>
    rw [Expr.eventsList]
    rcases List.mem_cons.1 h with rfl | h
    · exact List.subset_append_left _ _
    · exact List.subset_append_of_subset_right _ (ih h)

theorem mentionsAny_eq_false_of_events {names : List String} {expr part : Expr}
    (h : mentionsAny names expr = false) (hpart : part.events ⊆ expr.events) :
    mentionsAny names part = false := by
  rw [mentionsAny, List.any_eq_false] at h ⊢
  exact fun event hevent => h event (hpart hevent)

mutual
theorem callValue_assign {name : String} (expr : Expr) (h : mentionsAny [name] expr = false)
    (state : CallState) (value : Datum) : callValue expr (state.assign name value) =
      ((callValue expr state).1, (callValue expr state).2.assign name value) := by
  match expr with
  | .name _ other =>
    have hne : other ≠ name := by simpa [mentionsAny, Expr.events, Event.mentions] using h
    simp [callValue, CallState.assign, hne]
  | .paren inner => exact callValue_assign inner h state value
  | .newArray _ _ (some items) =>
    have hitems : ∀ item ∈ items, mentionsAny [name] item = false := fun item hitem =>
      mentionsAny_eq_false_of_events h (List.subset_cons_of_subset _
        (List.subset_append_of_subset_right _ (events_subset_eventsList hitem)))
    rw [callValue, callValue, callValues_assign items hitems state value]
    rcases callValues items state with ⟨thrown | values, final⟩ <;> rfl
  | .call _ _ _ args =>
    have hargs : ∀ arg ∈ args, mentionsAny [name] arg = false := fun arg harg =>
      mentionsAny_eq_false_of_events h (List.subset_cons_of_subset _
        (List.subset_append_of_subset_right _ (events_subset_eventsList harg)))
    rw [callValue, callValue, callValues_assign args hargs state value]
    rcases callValues args state with ⟨thrown | values, final⟩ <;> rfl
  | .assign target op inner =>
    cases target with
    | name id other =>
      cases op with
      | assign =>
        have hinner : mentionsAny [name] inner = false := mentionsAny_eq_false_of_events h
          (List.subset_cons_of_subset _ (List.subset_cons_self _ _))
        have hne : other ≠ name := by
          rintro rfl
          simp [mentionsAny, Expr.events, Event.mentions] at h
        rw [callValue, callValue, callValue_assign inner hinner state value]
        rcases callValue inner state with ⟨thrown | result, final⟩
        · rfl
        · dsimp only
          rw [CallState.assign_comm hne]
      | _ => rfl
    | _ => rfl
  | .literal _ | .newArray _ _ none | .field _ _ | .index _ _ | .binary _ _ _ | .unary _ _
  | .conditional _ _ _ | .cast _ _ | .instanceOf _ _ _ | .new _ _ _ _ | .arrayInit _
  | .lambda _ _ _ | .methodRef _ _ | .classLiteral _ | .this | .super | .typeName _ => rfl

theorem callValues_assign {name : String} (exprs : List Expr)
    (h : ∀ expr ∈ exprs, mentionsAny [name] expr = false) (state : CallState) (value : Datum) :
    callValues exprs (state.assign name value) =
      ((callValues exprs state).1, (callValues exprs state).2.assign name value) := by
  match exprs with
  | [] => rfl
  | expr :: rest =>
    obtain ⟨hexpr, hrest⟩ := List.forall_mem_cons.1 h
    rw [callValues, callValues, callValue_assign expr hexpr]
    rcases callValue expr state with ⟨thrown | result, middle⟩
    · rfl
    · dsimp only
      rw [callValues_assign rest hrest]
      rcases callValues rest middle with ⟨thrown | values, final⟩ <;> rfl
end

theorem respectsEffects_callMachine : callMachine.RespectsEffects where
  lookup_assign := fun _ _ _ => if_pos rfl
  eval_assign := fun id name value state => by
    rw [eval_callMachine value state, eval_callMachine _ state]
    simp only [callValue]
    rcases callValue value state with ⟨thrown | result, final⟩ <;> rfl
  unchanged := by
    intro expr state result state' hpure heval
    rw [eval_callMachine expr state] at heval
    obtain ⟨value, hvalue⟩ := callValue_pure expr hpure state
    cases heval.symm.trans (congrArg some hvalue)
    rfl
  constant := by
    intro expr hconstant state state'
    rw [eval_callMachine expr state, eval_callMachine expr state']
    exact congrArg some (callValue_constant expr hconstant state state')
  apart := by
    intro expr name hmentions state value
    rw [eval_callMachine expr state]
    exact (eval_callMachine expr (CallState.assign state name value)).trans
      (congrArg some (callValue_assign expr hmentions state value))

/-- A method that gives back four variables, with the body `if (c) { x = f(); return new Object[]{x, y, z, w}; } w = h(); z = 3; y = g(); x = 1; return new Object[]{x, y, z, w};`. -/
def fourValues : Method :=
  let write (id : NodeId) (name : String) (value : Expr) : Stmt :=
    .ofKind (.expr (.assign (.name id name) .assign value))
  let packed (id : NodeId) : Stmt := .ofKind (.ret (some (.newArray objectType [none]
    (some [.name id "x", .name (id + 1) "y", .name (id + 2) "z", .name (id + 3) "w"]))))
  ⟨0, .unwritten, [], [], [], some .void, "enter", [], [],
    some (.ofStmts [
      .ofKind (.ifElse (.name 1 "c") (.ofKind (.block (.ofStmts
        [write 2 "x" (.call none [] "f" []), packed 3]))) none),
      write 7 "w" (.call none [] "h" []), write 8 "z" (.literal ⟨.int, "3"⟩),
      write 9 "y" (.call none [] "g" []), write 10 "x" (.literal ⟨.int, "1"⟩), packed 11])⟩

theorem keepsReturn_foldReturns_fourValues :
    callMachine.RespectsEffects ∧ (foldReturns fourValues ["x", "y", "z", "w"]).2 = 4 ∧
    ∃ body body', fourValues.body = some body ∧ body.sites.length = 2 ∧
      (foldReturns fourValues ["x", "y", "z", "w"]).1.body = some body' ∧
      List.Forall₂ (KeepsReturn ["x", "y", "z", "w"]) body.sites body'.sites := by
  refine ⟨respectsEffects_callMachine, by decide, ?_⟩
  have htemplate : ∀ site ∈ (fourValues.body.getD default).sites,
      GivesTemplate ["x", "y", "z", "w"] site.ret :=
    List.forall_mem_cons.2 ⟨⟨_, rfl, .array rfl (by decide)⟩, List.forall_mem_cons.2
      ⟨⟨_, rfl, .array rfl (by decide)⟩, List.forall_mem_nil _⟩⟩
  obtain ⟨body', hbody', hsites⟩ :=
    @keepsReturn_foldReturns _ fourValues (fourValues.body.getD default) rfl htemplate
  exact ⟨_, body', rfl, by decide, hbody', hsites⟩

end AdviceMigration.Advice
