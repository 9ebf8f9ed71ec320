import AdviceMigration.Proofs.Advice.Container

/-!
# Which pairs of advice methods share values

What the two methods hand over is known exactly when neither binds a key twice, the exit method receives the returned value at most once, and both bind the same keys. Otherwise the error is that of the first of these conditions that fails. The keys are compared by number and in one direction only, which is enough because neither side repeats one.
-/

namespace AdviceMigration.Advice

open AdviceMigration.Source AdviceMigration.Scope

/-- The key that a parameter shares its value under. -/
def sharedKey? (scope : TypeScope) (param : Param) : Option String :=
  (Binding.ofParam scope param).toOption.bind (·.key?)

/-- The shared parameters of a method by key, in the order of the parameters. -/
def sharedParams (scope : TypeScope) (method : Method) : List (String × HandedParam) :=
  method.params.filterMap fun param =>
    (sharedKey? scope param).map fun key => (key, ⟨param.id, param.name, param.declaredType⟩)

/-- Whether a method comes with what its parameters are bound to, and its parameters can be told apart. -/
structure BoundMethod.Classified (scope : TypeScope) (bound : BoundMethod) : Prop where
  bindings : Binding.ofMethod scope bound.method = .ok bound.bindings
  distinct : (bound.method.params.map (·.id)).Nodup

/-- Whether a key is the first that also stands before. -/
def RepeatsFirst (keys : List String) (key : String) : Prop :=
  ∃ front back, keys = front ++ key :: back ∧ key ∈ front ∧ front.Nodup

/-- Whether a list holds the given keys in ascending order. -/
def Ascending (sorted keys : List String) : Prop :=
  sorted.Perm keys ∧ sorted.Pairwise (· ≤ ·)

namespace AdviceLocals

/-- The keys that a method binds, in order. -/
def keysOf (bound : Option BoundMethod) : List String :=
  bound.toList.flatMap fun bound => bound.bindings.filterMap (·.key?)

/-- The parameters of a method that receive what the enter method returned. -/
def receiversOf (bound : Option BoundMethod) : List Binding :=
  bound.toList.flatMap fun bound => bound.bindings.filter (·.isEntered)

/-- Whether the two methods can hand values over. -/
structure WellPaired (enter exit : Option BoundMethod) : Prop where
  enterOnce : (keysOf enter).Nodup
  received : (receiversOf exit).length ≤ 1
  exitOnce : (keysOf exit).Nodup
  sameKeys : ∀ key, key ∈ keysOf enter ↔ key ∈ keysOf exit

/-- The error of the first condition that fails. -/
inductive Rejected (enter exit : Option BoundMethod) : MigrateError → Prop where
  | enterTwice {bound : BoundMethod} {key : String} (henter : enter = some bound)
      (hkey : RepeatsFirst (keysOf enter) key) :
      Rejected enter exit (.duplicateLocal bound.method.name key)
  | receivedTwice {bound : BoundMethod} (hexit : exit = some bound)
      (henter : (keysOf enter).Nodup) (hreceived : 1 < (receiversOf exit).length) :
      Rejected enter exit (.duplicateEnterBinding bound.method.name)
  | exitTwice {bound : BoundMethod} {key : String} (hexit : exit = some bound)
      (henter : (keysOf enter).Nodup) (hreceived : (receiversOf exit).length ≤ 1)
      (hkey : RepeatsFirst (keysOf exit) key) :
      Rejected enter exit (.duplicateLocal bound.method.name key)
  | mismatched {left right : List String} (henter : (keysOf enter).Nodup)
      (hreceived : (receiversOf exit).length ≤ 1) (hexit : (keysOf exit).Nodup)
      (hdiffer : ¬ ∀ key, key ∈ keysOf enter ↔ key ∈ keysOf exit)
      (hleft : Ascending left (keysOf enter)) (hright : Ascending right (keysOf exit)) :
      Rejected enter exit (.mismatchedLocals left right)

end AdviceLocals

theorem except_bind_eq_error {ε α β : Type} {result : Except ε α} {next : α → Except ε β}
    {error : ε} : (result >>= next) = .error error ↔
      result = .error error ∨ ∃ value, result = .ok value ∧ next value = .error error := by
  cases result with
  | error other => simp [bind, Except.bind]
  | ok value => simp [bind, Except.bind]

/-! ### Repeated keys -/

namespace BoundMethod

theorem repeatedKey?_eq_none {seen keys : List String} :
    repeatedKey? seen keys = none ↔ keys.Nodup ∧ ∀ key ∈ keys, key ∉ seen := by
  refine ⟨nodup_of_repeatedKey?, fun h => ?_⟩
  induction keys generalizing seen with
  | nil => rfl
  | cons key rest ih =>
    obtain ⟨hnodup, hapart⟩ := h
    obtain ⟨hkey, hrest⟩ := List.nodup_cons.1 hnodup
    have hnew : ¬ seen.contains key := by simpa using hapart key List.mem_cons_self
    rw [repeatedKey?, if_neg hnew]
    refine ih ⟨hrest, fun other hmem => List.not_mem_cons_of_ne_of_not_mem ?_ ?_⟩
    · rintro rfl
      exact hkey hmem
    · exact hapart other (List.mem_cons_of_mem _ hmem)

/-- The key that is found stands behind keys that are all new. -/
theorem repeatedKey?_eq_some {seen keys : List String} {key : String} :
    repeatedKey? seen keys = some key ↔
      ∃ front back, keys = front ++ key :: back ∧ (key ∈ front ∨ key ∈ seen) ∧ front.Nodup ∧
        ∀ other ∈ front, other ∉ seen := by
  induction keys generalizing seen with
  | nil => simp [repeatedKey?]
  | cons first rest ih =>
    rw [repeatedKey?]
    by_cases hseen : first ∈ seen
    · rw [if_pos (by simpa using hseen), Option.some_inj]
      constructor
      · rintro rfl
        exact ⟨[], rest, rfl, .inr hseen, List.nodup_nil, List.forall_mem_nil _⟩
      · rintro ⟨front, back, hkeys, -, -, hnew⟩
        cases front with
        | nil => exact (List.cons.inj hkeys).1
        | cons other front =>
          rw [← (List.cons.inj hkeys).1] at hnew
          exact absurd hseen (hnew first List.mem_cons_self)
    · rw [if_neg (by simpa using hseen), ih]
      constructor
      · rintro ⟨front, back, rfl, hkey, hnodup, hnew⟩
        refine ⟨first :: front, back, rfl, ?_, ?_, ?_⟩
        · simp only [List.mem_cons] at hkey ⊢
          tauto
        · exact List.nodup_cons.2 ⟨fun hmem => hnew first hmem List.mem_cons_self, hnodup⟩
        · exact List.forall_mem_cons.2 ⟨hseen, fun other hmem hmem' =>
            hnew other hmem (List.mem_cons_of_mem _ hmem')⟩
      · rintro ⟨front, back, hkeys, hkey, hnodup, hnew⟩
        cases front with
        | nil =>
          obtain ⟨rfl, -⟩ := List.cons.inj hkeys
          exact absurd (hkey.resolve_left List.not_mem_nil) hseen
        | cons other front =>
          obtain ⟨rfl, rfl⟩ := List.cons.inj hkeys
          obtain ⟨hother, hnodup⟩ := List.nodup_cons.1 hnodup
          refine ⟨front, back, rfl, ?_, hnodup, fun name hmem => ?_⟩
          · simp only [List.mem_cons] at hkey ⊢
            tauto
          · refine List.not_mem_cons_of_ne_of_not_mem ?_ (hnew name (List.mem_cons_of_mem _ hmem))
            rintro rfl
            exact hother hmem

theorem repeatedKey?_eq_some_nil {keys : List String} {key : String} :
    repeatedKey? [] keys = some key ↔ RepeatsFirst keys key := by
  simp [repeatedKey?_eq_some, RepeatsFirst]

theorem keys_shared (bound : BoundMethod) :
    bound.shared.map (·.1) = bound.bindings.filterMap (·.key?) := by
  rw [shared, List.map_filterMap]
  congr 1
  funext binding
  cases binding.key? <;> rfl

end BoundMethod

/-- The bindings of a method name its parameters in order. -/
theorem BoundMethod.Classified.shared_eq {scope : TypeScope} {bound : BoundMethod}
    (h : bound.Classified scope) : bound.shared = sharedParams scope bound.method := by
  have hforall := mapM_eq_ok_iff.1 h.bindings
  rw [shared, sharedParams]
  generalize bound.method.params = params, bound.bindings = bindings at hforall
  induction hforall with
  | nil => rfl
  | @cons param binding params bindings hparam hrest ih =>
    obtain ⟨hid, hname, htype⟩ : binding.param = param.id ∧ binding.name = param.name ∧
        binding.type = param.declaredType := by
      obtain ⟨hid, hname, -⟩ := Binding.ofParam_eq_ok hparam
      refine ⟨hid, hname, ?_⟩
      rw [Binding.ofParam] at hparam
      split at hparam
      · cases hparam
        rfl
      · split at hparam
        · cases hparam
        · split at hparam <;> cases hparam
          rfl
    have hkey : sharedKey? scope param = binding.key? := by
      rw [sharedKey?, hparam]
      rfl
    rw [List.filterMap_cons, List.filterMap_cons, ih, hkey, HandedParam.ofBinding, hid, hname,
      htype]

namespace AdviceLocals

/-! ### What either method contributes -/

variable {bound enter exit : Option BoundMethod}

theorem keys_sharedOf (bound : Option BoundMethod) :
    (sharedOf bound).map (·.1) = keysOf bound := by
  cases bound with
  | none => rfl
  | some bound =>
    rw [keysOf, Option.toList_some, List.flatMap_singleton]
    exact bound.keys_shared

theorem sharedOnceOf_eq_ok {shared : List (String × HandedParam)} :
    sharedOnceOf bound = .ok shared ↔ (keysOf bound).Nodup ∧ shared = sharedOf bound := by
  constructor
  · intro h
    have hshared := eq_sharedOf_of_sharedOnceOf h
    exact ⟨keys_sharedOf bound ▸ hshared ▸ nodup_keys_of_sharedOnceOf h, hshared⟩
  · rintro ⟨hnodup, rfl⟩
    cases bound with
    | none => rfl
    | some bound =>
      rw [← keys_sharedOf, sharedOf] at hnodup
      have hnone := (@BoundMethod.repeatedKey?_eq_none [] _).2 ⟨hnodup, by simp⟩
      rw [sharedOnceOf, BoundMethod.sharedOnce, hnone]
      rfl

theorem sharedOnceOf_eq_error {error : MigrateError} :
    sharedOnceOf bound = .error error ↔ ∃ method key, bound = some method ∧
      RepeatsFirst (keysOf bound) key ∧ error = .duplicateLocal method.method.name key := by
  cases bound with
  | none => simp [sharedOnceOf]
  | some bound =>
    rw [sharedOnceOf, BoundMethod.sharedOnce, ← keys_sharedOf, sharedOf]
    cases hkey : BoundMethod.repeatedKey? [] (bound.shared.map (·.1)) with
    | none =>
      simp [← BoundMethod.repeatedKey?_eq_some_nil, hkey]
    | some key =>
      simp [← BoundMethod.repeatedKey?_eq_some_nil, hkey, eq_comm]

theorem enteredOf_eq_ok :
    (∃ entered, enteredOf bound = .ok entered) ↔ (receiversOf bound).length ≤ 1 := by
  cases bound with
  | none => simp [enteredOf, receiversOf]
  | some bound =>
    rw [enteredOf, BoundMethod.entered, receiversOf, Option.toList_some, List.flatMap_singleton]
    generalize bound.bindings.filter (·.isEntered) = receivers
    rcases receivers with _ | ⟨first, _ | ⟨second, rest⟩⟩ <;> simp

theorem enteredOf_eq_error {error : MigrateError} :
    enteredOf bound = .error error ↔ ∃ method, bound = some method ∧
      1 < (receiversOf bound).length ∧ error = .duplicateEnterBinding method.method.name := by
  cases bound with
  | none => simp [enteredOf]
  | some bound =>
    rw [enteredOf, BoundMethod.entered, receiversOf, Option.toList_some, List.flatMap_singleton]
    generalize bound.bindings.filter (·.isEntered) = receivers
    rcases receivers with _ | ⟨first, _ | ⟨second, rest⟩⟩ <;> simp [eq_comm (b := error)]

/-- A parameter that receives what the enter method returned is found. -/
theorem isSome_of_enteredOf {scope : TypeScope} {entered : Option EnterParam}
    (hbound : ∀ method ∈ bound, method.Classified scope) (h : enteredOf bound = .ok entered) :
    (receiversOf bound).length = if entered.isSome then 1 else 0 := by
  cases bound with
  | none =>
    cases h
    rfl
  | some bound =>
    obtain ⟨hbindings, hnodup⟩ := hbound bound rfl
    rw [enteredOf, BoundMethod.entered] at h
    rw [receiversOf, Option.toList_some, List.flatMap_singleton]
    split at h
    next hnil =>
      cases h
      rw [hnil]
      rfl
    next only honly =>
      cases h
      have hmem : only ∈ bound.bindings.filter (·.isEntered) := honly ▸ List.mem_singleton_self only
      obtain ⟨hmem, hentered⟩ := List.mem_filter.1 hmem
      obtain ⟨enter, henter, -⟩ :=
        enterParam?_eq_some hnodup hbindings hmem hentered
      rw [honly, henter]
      rfl
    next => cases h

/-! ### Equal sets of keys -/

/-- Lists without repetition hold the same keys if they are equally long and one holds those of the other. -/
theorem sameKeys_iff {shared shared' : List (String × HandedParam)}
    (hnodup : (shared.map (·.1)).Nodup) (hnodup' : (shared'.map (·.1)).Nodup) :
    (shared.length == shared'.length &&
        shared.all fun entry => shared'.any fun other => other.1 == entry.1) = true ↔
      ∀ key, key ∈ shared.map (·.1) ↔ key ∈ shared'.map (·.1) := by
  have hsub : (shared.all fun entry => shared'.any fun other => other.1 == entry.1) = true ↔
      shared.map (·.1) ⊆ shared'.map (·.1) := by
    simp only [List.all_eq_true, List.any_eq_true, beq_iff_eq, List.subset_def,
      List.mem_map, forall_exists_index, and_imp, forall_apply_eq_imp_iff₂]
  rw [Bool.and_eq_true, beq_iff_eq, hsub]
  constructor
  · rintro ⟨hlength, hsub⟩
    have hperm := (List.subperm_of_subset hnodup hsub).perm_of_length_le (by simp [hlength])
    exact fun key => hperm.mem_iff
  · intro hsame
    have hperm := (List.perm_ext_iff_of_nodup hnodup hnodup').2 hsame
    exact ⟨by simpa using hperm.length_eq, hperm.subset⟩

theorem ascending_iff {shared : List (String × HandedParam)} {sorted : List String} :
    Ascending sorted (shared.map (·.1)) ↔ sorted = sortedKeys shared := by
  have hperm : (sortedKeys shared).Perm (shared.map (·.1)) := List.mergeSort_perm _ _
  have hpairwise : (sortedKeys shared).Pairwise (· ≤ ·) := by
    have h := @List.pairwise_mergeSort _ (fun left right : String => !decide (right < left))
      (fun a b c hab hbc => by
        simp only [Bool.not_eq_true', decide_eq_false_iff_not, String.not_lt] at hab hbc ⊢
        exact String.le_trans hab hbc)
      (fun a b => by
        simp only [Bool.or_eq_true, Bool.not_eq_true', decide_eq_false_iff_not, String.not_lt]
        exact String.le_total a b) (shared.map (·.1))
    refine h.imp fun hle => ?_
    rwa [Bool.not_eq_true', decide_eq_false_iff_not, String.not_lt] at hle
  constructor
  · rintro ⟨hsorted, hascending⟩
    exact (hsorted.trans hperm.symm).eq_of_pairwise (fun a b _ _ => String.le_antisymm) hascending hpairwise
  · rintro rfl
    exact ⟨hperm, hpairwise⟩

/-! ### Pairs that are accepted -/

theorem create_eq_ok_of_wellPaired (h : WellPaired enter exit) :
    ∃ locals, create enter exit = .ok locals := by
  obtain ⟨entered, hentered⟩ := enteredOf_eq_ok.2 h.received
  have hsame := (sameKeys_iff ((keys_sharedOf enter).symm ▸ h.enterOnce)
    ((keys_sharedOf exit).symm ▸ h.exitOnce)).2
    (by simpa only [keys_sharedOf] using h.sameKeys)
  rw [create_eq, sharedOnceOf_eq_ok.2 ⟨h.enterOnce, rfl⟩, hentered,
    sharedOnceOf_eq_ok.2 ⟨h.exitOnce, rfl⟩]
  exact ⟨_, if_pos hsame⟩

theorem wellPaired_of_create {locals : AdviceLocals} (h : create enter exit = .ok locals) :
    WellPaired enter exit := by
  rw [create_eq] at h
  obtain ⟨shared, henter, h⟩ := except_bind_eq_ok.1 h
  obtain ⟨entered, hentered, h⟩ := except_bind_eq_ok.1 h
  obtain ⟨shared', hexit, h⟩ := except_bind_eq_ok.1 h
  obtain ⟨henterOnce, rfl⟩ := sharedOnceOf_eq_ok.1 henter
  obtain ⟨hexitOnce, rfl⟩ := sharedOnceOf_eq_ok.1 hexit
  refine ⟨henterOnce, enteredOf_eq_ok.1 ⟨entered, hentered⟩, hexitOnce, ?_⟩
  rw [← keys_sharedOf] at henterOnce hexitOnce
  split at h
  next hsame => simpa only [keys_sharedOf] using (sameKeys_iff henterOnce hexitOnce).1 hsame
  next => cases h

/-- The conditions are checked in the order in which their errors are listed. -/
theorem create_eq_error {error : MigrateError} :
    create enter exit = .error error ↔ Rejected enter exit error := by
  rw [create_eq, except_bind_eq_error, sharedOnceOf_eq_error]
  constructor
  · rintro (⟨bound, key, henter, hkey, rfl⟩ | ⟨shared, henter, h⟩)
    · exact .enterTwice henter hkey
    obtain ⟨henterOnce, rfl⟩ := sharedOnceOf_eq_ok.1 henter
    rcases except_bind_eq_error.1 h with h | ⟨entered, hentered, h⟩
    · obtain ⟨bound, hexit, hreceived, rfl⟩ := enteredOf_eq_error.1 h
      exact .receivedTwice hexit henterOnce hreceived
    have hreceived := enteredOf_eq_ok.1 ⟨entered, hentered⟩
    rcases except_bind_eq_error.1 h with h | ⟨shared', hexit, h⟩
    · obtain ⟨bound, key, hexit, hkey, rfl⟩ := sharedOnceOf_eq_error.1 h
      exact .exitTwice hexit henterOnce hreceived hkey
    obtain ⟨hexitOnce, rfl⟩ := sharedOnceOf_eq_ok.1 hexit
    split at h
    next => cases h
    next hdiffer =>
      cases h
      refine .mismatched henterOnce hreceived hexitOnce (fun hsame => hdiffer ?_)
        (keys_sharedOf enter ▸ ascending_iff.2 rfl) (keys_sharedOf exit ▸ ascending_iff.2 rfl)
      rw [← keys_sharedOf] at henterOnce hexitOnce
      exact (sameKeys_iff henterOnce hexitOnce).2 (by simpa only [keys_sharedOf] using hsame)
  · intro h
    cases h with
    | enterTwice henter hkey => exact .inl ⟨_, _, henter, hkey, rfl⟩
    | receivedTwice hexit henter hreceived =>
      refine .inr ⟨_, sharedOnceOf_eq_ok.2 ⟨henter, rfl⟩, ?_⟩
      exact except_bind_eq_error.2 (.inl (enteredOf_eq_error.2 ⟨_, hexit, hreceived, rfl⟩))
    | exitTwice hexit henter hreceived hkey =>
      obtain ⟨entered, hentered⟩ := enteredOf_eq_ok.2 hreceived
      refine .inr ⟨_, sharedOnceOf_eq_ok.2 ⟨henter, rfl⟩, ?_⟩
      refine except_bind_eq_error.2 (.inr ⟨entered, hentered, ?_⟩)
      exact except_bind_eq_error.2 (.inl (sharedOnceOf_eq_error.2 ⟨_, _, hexit, hkey, rfl⟩))
    | mismatched henter hreceived hexit hdiffer hleft hright =>
      obtain ⟨entered, hentered⟩ := enteredOf_eq_ok.2 hreceived
      refine .inr ⟨_, sharedOnceOf_eq_ok.2 ⟨henter, rfl⟩, ?_⟩
      refine except_bind_eq_error.2 (.inr ⟨entered, hentered, ?_⟩)
      refine except_bind_eq_error.2 (.inr ⟨_, sharedOnceOf_eq_ok.2 ⟨hexit, rfl⟩, ?_⟩)
      rw [← keys_sharedOf] at henter hexit hleft hright
      rw [ascending_iff.1 hleft, ascending_iff.1 hright]
      refine if_neg fun hsame => hdiffer ?_
      simpa only [keys_sharedOf] using (sameKeys_iff henter hexit).1 hsame

/-- Two methods hand values over exactly if they are well paired, and otherwise the first condition that fails is reported. A container is needed for more than one value. The keys stand in the order of the parameters of the enter method. -/
theorem create_wellPaired {scope scope' : TypeScope}
    (henter : ∀ bound ∈ enter, bound.Classified scope)
    (hexit : ∀ bound ∈ exit, bound.Classified scope') :
    ((∃ locals, create enter exit = .ok locals) ↔ WellPaired enter exit) ∧
    (∀ error, create enter exit = .error error ↔ Rejected enter exit error) ∧
    ∀ locals, create enter exit = .ok locals →
      (locals.needsContainer = true ↔
        1 < (keysOf enter).length + (receiversOf exit).length) ∧
      locals.enter = enter.toList.flatMap fun bound => sharedParams scope bound.method := by
  refine ⟨⟨fun ⟨_, h⟩ => wellPaired_of_create h, create_eq_ok_of_wellPaired⟩,
    fun error => create_eq_error, fun locals h => ?_⟩
  obtain ⟨hshared, -, -, hentered⟩ := create_eq_ok h
  constructor
  · rw [needsContainer, decide_eq_true_iff, isSome_of_enteredOf hexit hentered, hshared,
      ← keys_sharedOf, List.length_map]
  · rw [hshared]
    cases enter with
    | none => rfl
    | some bound =>
      rw [Option.toList_some, List.flatMap_singleton]
      exact (henter bound rfl).shared_eq

/-- A method without twice the same parameter, in a scope that classifies its parameters. -/
theorem exists_classified {scope : TypeScope} {method : Method} {keys : List String} {received : Nat}
    (hids : (method.params.map (·.id)).Nodup)
    (h : ((Binding.ofMethod scope method).toOption.map fun bindings =>
      (bindings.filterMap (·.key?), (bindings.filter (·.isEntered)).length)) =
        some (keys, received)) :
    ∃ bound : BoundMethod, bound.method = method ∧ bound.Classified scope ∧
      keysOf (some bound) = keys ∧ (receiversOf (some bound)).length = received := by
  obtain ⟨bindings, hbindings, h⟩ := Option.map_eq_some_iff.1 h
  obtain ⟨hkeys, hreceived⟩ := Prod.mk.inj h
  refine ⟨⟨method, bindings⟩, rfl, ⟨eq_ok_of_toOption hbindings, hids⟩, ?_, ?_⟩
  · rw [keysOf, Option.toList_some, List.flatMap_singleton, hkeys]
  · rw [receiversOf, Option.toList_some, List.flatMap_singleton, hreceived]

/-- Both methods share `k`, and the exit method also receives what the enter method returned. Without the exit method the key is left alone. -/
theorem create_wellPaired_handing :
    let scope := handingScope "Config" "c"
    ∃ enter exit : BoundMethod, enter.method = handingEnter ∧ exit.method = handingExit "c" ∧
      (∀ bound ∈ some enter, bound.Classified scope) ∧
      (∀ bound ∈ some exit, bound.Classified scope) ∧
      (∃ locals, create (some enter) (some exit) = .ok locals ∧ locals.needsContainer = true ∧
        locals.enter = sharedParams scope handingEnter) ∧
      create (some enter) none = .error (.mismatchedLocals ["k"] []) := by
  intro scope
  obtain ⟨enter, hmethod, henter, hkeys, hreceived⟩ :=
    @exists_classified scope handingEnter ["k"] 0 (by decide) (by decide +kernel)
  obtain ⟨exit, hmethod', hexit, hkeys', hreceived'⟩ :=
    @exists_classified scope (handingExit "c") ["k"] 1 (by decide) (by decide +kernel)
  have henters : ∀ bound ∈ some enter, bound.Classified scope := by simpa using henter
  have hexits : ∀ bound ∈ some exit, bound.Classified scope := by simpa using hexit
  obtain ⟨hok, -, hlocals⟩ := create_wellPaired henters hexits
  obtain ⟨-, herror, -⟩ :=
    @create_wellPaired (some enter) none scope scope henters (by simp)
  refine ⟨enter, exit, hmethod, hmethod', henters, hexits, ?_, (herror _).2 ?_⟩
  · obtain ⟨locals, hcreate⟩ := hok.2 ⟨by simp [hkeys], by simp [hreceived'], by simp [hkeys'],
      by simp [hkeys, hkeys']⟩
    obtain ⟨hneeds, hshared⟩ := hlocals locals hcreate
    refine ⟨locals, hcreate, hneeds.2 (by simp [hkeys, hreceived']), ?_⟩
    rw [hshared, Option.toList_some, List.flatMap_singleton, hmethod]
  · refine .mismatched (by simp [hkeys]) (Nat.zero_le _) List.nodup_nil (fun hsame => ?_) ?_ ?_
    · exact List.not_mem_nil ((hsame "k").1 (by simp [hkeys]))
    · exact ⟨hkeys ▸ .refl _, List.pairwise_singleton _ _⟩
    · exact ⟨.refl _, .nil⟩

end AdviceLocals

end AdviceMigration.Advice
