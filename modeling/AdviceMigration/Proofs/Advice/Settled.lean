import AdviceMigration.Proofs.Advice.Plans

/-!
# Migrated classes are settled

The plan for a class that has been migrated changes nothing, wherever in the migrated unit the class stands. A class that has not been changed stays settled too, unless the annotation by which it says that it has been migrated before comes to stand for something else.
-/

namespace AdviceMigration.Advice

open AdviceMigration.Source AdviceMigration.Scope

/-- Whether the plan for a class changes nothing; and if `safe`, there is no error either. -/
def Settled (safe : Prop) (scope : TypeScope) (decl : TypeDecl) : Prop :=
  (∀ plan, Plan.create decl scope = .ok (some plan) → plan.hasChanges = false) ∧
    (safe → ∃ plan, Plan.create decl scope = .ok plan)

theorem Settled.of_none {safe : Prop} {scope : TypeScope} {decl : TypeDecl}
    (h : Plan.create decl scope = .ok none) : Settled safe scope decl := by
  refine ⟨fun plan hplan => ?_, fun _ => ⟨none, h⟩⟩
  rw [h] at hplan
  cases hplan

/-! ### Advice methods found again -/

/-- What has to be removed from a method and may be added to it when a plan is carried out. -/
structure Suits (plan : Plan) (id : NodeId) (removed : List NodeId) (writes : List Binding)
    (extra : List Param) : Prop where
  receives : ∀ param ∈ extra, Receives param
  length : extra.length ≤ 1
  empty : plan.locals.isNonempty = false → extra = []
  enterShared : ∀ enter, plan.enter = some enter → enter.id = id →
    ∀ param ∈ plan.locals.enter.map (·.2.param), param ∈ removed
  enterWrites : ∀ enter, plan.enter = some enter → enter.id = id →
    ∀ binding ∈ plan.enterWrites, binding ∈ writes
  exitShared : ∀ exit, plan.exit = some exit → exit.id = id →
    ∀ param ∈ plan.locals.exit.map (·.2.param), param ∈ removed
  exitEntered : ∀ exit, plan.exit = some exit → exit.id = id → extra = [] ∨
    ∀ enter, plan.locals.exitEnter = some enter → enter.value.param ∈ removed
  exitWrites : ∀ exit, plan.exit = some exit → exit.id = id →
    ∀ binding ∈ plan.exitWrites, binding ∈ writes

/-- Whether a method is what carrying out a plan makes of another one. -/
def Carried (plan : Plan) (method method' : Method) : Prop :=
  ∃ removed writes extra, Rewritten removed writes extra method method' ∧
    Suits plan method.id removed writes extra

/-- Whether an advice method is what carrying out a plan makes of another one. -/
def Follows (plan : Plan) (added : List String) (advice advice' : AdviceMethod) : Prop :=
  advice'.id = advice.id ∧ ∃ removed writes extra, Suits plan advice.id removed writes extra ∧
    Binding.Reread added removed writes extra.length advice.bindings advice'.bindings

section Found

variable {added : List String} {scope scope' : TypeScope} (h : Migrated added scope scope')
  {marker : String} (hmarker : marker = Framework.onMethodEnter ∨ marker = Framework.onMethodExit)

include h hmarker in
theorem findAnnot?_reannotated {annots annots' : List Annot}
    (hannots : Reannotated annots annots') :
    (findAnnot? annots' scope' marker).isSome = (findAnnot? annots scope marker).isSome := by
  rw [Bool.eq_iff_iff, isSome_findAnnot?, isSome_findAnnot?]
  constructor
  · rintro ⟨annot', hannot', hresolve⟩
    rcases hannots.added annot' hannot' with hemitted | ⟨annot, hannot, hname⟩
    · have hread : marker ∈ Framework.readNames := by
        rcases hmarker with rfl | rfl <;> decide
      have hlast := (TypeScope.endsWith_resolve? h.wellFormed' hresolve).lastSegment_eq
      exact absurd hlast.symm (Framework.lastSegment_emittedNames _ hemitted marker hread)
    · exact ⟨annot, hannot, (h.resolve?_marker_iff hmarker).1 (hname ▸ hresolve)⟩
  · rintro ⟨annot, hannot, hresolve⟩
    obtain ⟨annot', hannot', hname⟩ := hannots.kept annot hannot
    exact ⟨annot', hannot', hname ▸ (h.resolve?_marker_iff hmarker).2 hresolve⟩

include h hmarker in
theorem marked_carried {plan : Plan} {decl decl' : TypeDecl}
    (hmethods : List.Forall₂ (Carried plan) decl.methods decl'.methods) :
    List.Forall₂ (fun entry entry' => Carried plan entry.1 entry'.1)
      (AdviceMethod.marked decl scope marker) (AdviceMethod.marked decl' scope' marker) := by
  refine List.rel_filterMap ?_ hmethods
  intro method method' hcarried
  have hcarried' := hcarried
  obtain ⟨removed, writes, extra, hrewritten, -⟩ := hcarried'
  have hsome := findAnnot?_reannotated h hmarker hrewritten.annotations
  cases hfind : findAnnot? method.annotations scope marker with
  | none =>
    rw [hfind, Option.isSome_none, Option.isSome_eq_false_iff, Option.isNone_iff_eq_none] at hsome
    simp only [hfind, hsome, Option.map_none]
    exact .none
  | some index =>
    rw [hfind, Option.isSome_some, Option.isSome_iff_exists] at hsome
    obtain ⟨index', hindex'⟩ := hsome
    simp only [hfind, hindex', Option.map_some]
    exact .some hcarried

include h hmarker in
/-- The advice methods of a class that a plan was carried out on are those of the class before, without errors. -/
theorem find?_carried {plan : Plan} {decl decl' : TypeDecl}
    (hmethods : List.Forall₂ (Carried plan) decl.methods decl'.methods) {shortName : String}
    {found : Option AdviceMethod}
    (hfind : AdviceMethod.find? decl scope marker shortName = .ok found) :
    ∃ found', AdviceMethod.find? decl' scope' marker shortName = .ok found' ∧
      Option.Rel (Follows plan added) found found' := by
  have hmarked := marked_carried h hmarker hmethods
  cases found with
  | none =>
    rw [AdviceMethod.find?_eq_none hfind, List.forall₂_nil_left_iff] at hmarked
    refine ⟨none, ?_, .none⟩
    rw [AdviceMethod.find?, hmarked]
  | some advice =>
    obtain ⟨method, hfound⟩ := AdviceMethod.find?_eq_some hfind
    obtain ⟨index, hindex⟩ := hfound.marked
    rw [hindex] at hmarked
    obtain ⟨⟨method', index'⟩, rest, hcarried, hrest, hmarked'⟩ :=
      List.forall₂_cons_left_iff.1 hmarked
    rw [List.forall₂_nil_left_iff.1 hrest] at hmarked'
    obtain ⟨removed, writes, extra, hrewritten, hsuits⟩ := hcarried
    obtain ⟨bindings', hbindings', hreread⟩ :=
      Binding.ofMethod_rewritten h hrewritten hsuits.receives hfound.bindings
    refine ⟨some ⟨method'.id, method'.name, index',
      (method'.annotations[index']?.map (·.name)).getD "", bindings'⟩, ?_, .some ?_⟩
    · rw [AdviceMethod.find?, hmarked']
      simp only [hbindings']
      rfl
    · exact ⟨hrewritten.id.trans hfound.id.symm, removed, writes, extra, hfound.id ▸ hsuits,
        hreread⟩

end Found

/-! ### Nothing left to change -/

namespace Follows

variable {plan : Plan} {added : List String} {scope : TypeScope} {decl : TypeDecl}
  (hreads : plan.Reads scope decl) {advice advice' : AdviceMethod}
  (h : Follows plan added advice advice')

include hreads h in
theorem key?_enter (henter : plan.enter = some advice) :
    ∀ binding ∈ advice'.bindings, binding.key? = none := by
  obtain ⟨-, removed, writes, extra, hsuits, hreread⟩ := h
  intro binding hmem
  refine hreread.key?_eq_none (fun other hother hkey => ?_) hmem
  exact hsuits.enterShared advice henter rfl _ (hreads.sharedEnter advice henter other hother hkey)

include hreads h in
theorem key?_exit (hexit : plan.exit = some advice) :
    ∀ binding ∈ advice'.bindings, binding.key? = none := by
  obtain ⟨-, removed, writes, extra, hsuits, hreread⟩ := h
  intro binding hmem
  refine hreread.key?_eq_none (fun other hother hkey => ?_) hmem
  exact hsuits.exitShared advice hexit rfl _ (hreads.sharedExit advice hexit other hother hkey)

include h in
/-- A kind of bindings that the plan writes is not writable any more. -/
theorem writable_eq_nil {kind : Binding → Bool}
    (hkind : ∀ binding binding' : Binding, binding'.role = binding.role →
      kind binding' = kind binding)
    (hwrites : (plan.enter = some advice ∧ ∀ binding ∈ advice.writable kind,
        binding ∈ plan.enterWrites) ∨
      (plan.exit = some advice ∧ ∀ binding ∈ advice.writable kind, binding ∈ plan.exitWrites)) :
    advice'.writable kind = [] := by
  obtain ⟨-, removed, writes, extra, hsuits, hreread⟩ := h
  refine hreread.filter_writable_eq_nil hkind fun binding hmem hwritable hkind' => ?_
  have hmem' : binding ∈ advice.writable kind := by
    simp [AdviceMethod.writable, hmem, hwritable, hkind']
  rcases hwrites with ⟨henter, hwrites⟩ | ⟨hexit, hwrites⟩
  · exact hsuits.enterWrites advice henter rfl binding (hwrites binding hmem')
  · exact hsuits.exitWrites advice hexit rfl binding (hwrites binding hmem')

include h in
theorem enterWrites_eq_nil (henter : plan.enter = some advice) :
    advice'.writable (·.isField) ++ advice'.writable (·.isArgument) = [] := by
  have hwrites : plan.enterWrites =
      advice.writable (·.isField) ++ advice.writable (·.isArgument) := by
    rw [Plan.enterWrites, henter]
  have hfield : advice'.writable (·.isField) = [] :=
    h.writable_eq_nil (fun _ _ hrole => by simp [Binding.isField, hrole])
      (.inl ⟨henter, fun binding hmem => hwrites ▸ List.mem_append_left _ hmem⟩)
  have hargument : advice'.writable (·.isArgument) = [] :=
    h.writable_eq_nil (fun _ _ hrole => by simp [Binding.isArgument, hrole])
      (.inl ⟨henter, fun binding hmem => hwrites ▸ List.mem_append_right _ hmem⟩)
  rw [hfield, hargument]
  rfl

include h in
theorem exitWrites_eq_nil (hexit : plan.exit = some advice) :
    advice'.writable (·.isReturned) = [] ∧ advice'.writable (·.isField) = [] := by
  have hwrites : plan.exitWrites =
      advice.writable (·.isReturned) ++ advice.writable (·.isField) := by
    rw [Plan.exitWrites, hexit]
  constructor
  · exact h.writable_eq_nil (fun _ _ hrole => by simp [Binding.isReturned, hrole])
      (.inr ⟨hexit, fun binding hmem => hwrites ▸ List.mem_append_left _ hmem⟩)
  · exact h.writable_eq_nil (fun _ _ hrole => by simp [Binding.isField, hrole])
      (.inr ⟨hexit, fun binding hmem => hwrites ▸ List.mem_append_right _ hmem⟩)

include hreads h in
/-- Without an import of `Enter`, at most one parameter receives the value of the enter method. -/
theorem length_entered_le_one (hadded : Framework.enterValue ∉ added)
    (hexit : plan.exit = some advice) :
    (advice'.bindings.filter (·.isEntered)).length ≤ 1 := by
  obtain ⟨-, removed, writes, extra, hsuits, hreread⟩ := h
  obtain ⟨hlength, hall⟩ := hreads.entered advice hexit
  refine Nat.le_trans (hreread.length_entered_le hadded) ?_
  rcases hsuits.exitEntered advice hexit rfl with rfl | hremoved
  · refine Nat.le_trans ?_ hlength
    exact ((List.filter_sublist).filter _).length_le
  · have hnil : (advice.bindings.filter fun binding => !removed.contains binding.param).filter
        (·.isEntered) = [] := by
      rw [List.filter_eq_nil_iff]
      intro binding hmem hentered
      obtain ⟨hmem, hkept⟩ := List.mem_filter.1 hmem
      obtain ⟨enter, henter, hparam⟩ := hall binding hmem hentered
      have hgone := hremoved enter henter
      simp [← hparam, hgone] at hkept
    rw [hnil, List.length_nil, Nat.zero_add]
    exact hsuits.length

include hreads h in
/-- Without an enter method and an import of `Enter`, no parameter receives a value of the enter method. -/
theorem not_hasEntered (hadded : Framework.enterValue ∉ added) (henter : plan.enter = none)
    (hexit : plan.exit = some advice) : advice'.hasEntered = false := by
  obtain ⟨-, removed, writes, extra, hsuits, hreread⟩ := h
  obtain ⟨hempty, hwithout⟩ := hreads.withoutEnter henter
  have hle := hreread.length_entered_le hadded
  have hnil : advice.bindings.filter (·.isEntered) = [] := by
    rw [List.filter_eq_nil_iff]
    simpa [AdviceMethod.hasEntered] using hwithout advice hexit
  have hkept : (advice.bindings.filter fun binding => !removed.contains binding.param).filter
      (·.isEntered) = [] := by
    have hsub := (List.filter_sublist
      (p := fun binding => !removed.contains binding.param) (l := advice.bindings)).filter
        (·.isEntered)
    rw [hnil] at hsub
    exact List.sublist_nil.1 hsub
  rw [hsuits.empty hempty, hkept] at hle
  have hnil' := List.length_eq_zero_iff.1 (Nat.le_zero.1 hle)
  rw [List.filter_eq_nil_iff] at hnil'
  simpa [AdviceMethod.hasEntered] using hnil'

end Follows

theorem sharedOf_eq_nil {advice : Option AdviceMethod} {decl : TypeDecl}
    (h : ∀ found, advice = some found → ∀ binding ∈ found.bindings, binding.key? = none) :
    AdviceLocals.sharedOf (advice.bind (·.bound? decl)) = [] := by
  cases advice with
  | none => rfl
  | some found =>
    rw [Option.bind_some, AdviceMethod.bound?]
    cases decl.method? found.id with
    | none => rfl
    | some method =>
      refine List.filterMap_eq_nil_iff.2 fun binding hmem => ?_
      rw [h found rfl binding hmem]
      rfl

section Again

variable {plan plan' : Plan} {added : List String} {scope : TypeScope} {decl decl' : TypeDecl}
  {found found' enter' exit' : Option AdviceMethod} {advice' : AdviceMethod}

theorem exists_followed (h : Option.Rel (Follows plan added) found found')
    (hsome : found' = some advice') :
    ∃ advice, found = some advice ∧ Follows plan added advice advice' := by
  subst hsome
  cases h with
  | some hfollows => exact ⟨_, rfl, hfollows⟩

theorem sharedOf_enter_eq_nil (hreads : plan.Reads scope decl)
    (henter : Option.Rel (Follows plan added) plan.enter enter') :
    AdviceLocals.sharedOf (enter'.bind (·.bound? decl')) = [] := by
  refine sharedOf_eq_nil fun advice' hsome => ?_
  obtain ⟨advice, hadvice, hfollows⟩ := exists_followed henter hsome
  exact hfollows.key?_enter hreads hadvice

theorem sharedOf_exit_eq_nil (hreads : plan.Reads scope decl)
    (hexit : Option.Rel (Follows plan added) plan.exit exit') :
    AdviceLocals.sharedOf (exit'.bind (·.bound? decl')) = [] := by
  refine sharedOf_eq_nil fun advice' hsome => ?_
  obtain ⟨advice, hadvice, hfollows⟩ := exists_followed hexit hsome
  exact hfollows.key?_exit hreads hadvice

theorem enterWrites_again (henter : Option.Rel (Follows plan added) plan.enter plan'.enter) :
    plan'.enterWrites = [] := by
  rw [Plan.enterWrites]
  split
  next advice' hsome =>
    obtain ⟨advice, hadvice, hfollows⟩ := exists_followed henter hsome
    exact hfollows.enterWrites_eq_nil hadvice
  next => rfl

theorem exitWrites_again (hexit : Option.Rel (Follows plan added) plan.exit plan'.exit) :
    plan'.exitWrites = [] := by
  rw [Plan.exitWrites]
  split
  next advice' hsome =>
    obtain ⟨advice, hadvice, hfollows⟩ := exists_followed hexit hsome
    obtain ⟨hreturned, hfield⟩ := hfollows.exitWrites_eq_nil hadvice
    rw [hreturned, hfield]
    rfl
  next => rfl

/-- The exit method passes the check again: it writes nothing, and without an enter method it receives nothing from one. -/
theorem checkExit?_again (hreads : plan.Reads scope decl) (hadded : Framework.enterValue ∉ added)
    (henter : Option.Rel (Follows plan added) plan.enter enter')
    (hexit : Option.Rel (Follows plan added) plan.exit exit') :
    Plan.checkExit? enter' exit' = .ok () := by
  cases hsome : exit' with
  | none => rfl
  | some advice' =>
    obtain ⟨advice, hadvice, hfollows⟩ := exists_followed hexit hsome
    rw [Plan.checkExit?, Plan.checkExit, (hfollows.exitWrites_eq_nil hadvice).1, if_neg (by simp)]
    refine if_neg fun hwithout => ?_
    rw [Bool.and_eq_true, Option.isNone_iff_eq_none] at hwithout
    obtain ⟨rfl, hentered⟩ := hwithout
    have hnone : plan.enter = none := by
      generalize plan.enter = enter at henter
      cases henter
      rfl
    rw [hfollows.not_hasEntered hreads hadded hnone hadvice] at hentered
    cases hentered

theorem length_entered_again (hreads : plan.Reads scope decl)
    (hadded : Framework.enterValue ∉ added)
    (hexit : Option.Rel (Follows plan added) plan.exit exit') {bound : BoundMethod}
    (hbound : exit'.bind (·.bound? decl') = some bound) :
    (bound.bindings.filter (·.isEntered)).length ≤ 1 := by
  obtain ⟨advice', hsome, hbound⟩ := Option.bind_eq_some_iff.1 hbound
  obtain ⟨method, -, rfl⟩ := Option.map_eq_some_iff.1 hbound
  obtain ⟨advice, hadvice, hfollows⟩ := exists_followed hexit hsome
  exact hfollows.length_entered_le_one hreads hadded hadvice

end Again

/-- The plan for a class that a plan was carried out on changes nothing. -/
theorem settled_of_carried {added : List String} {scope scope' : TypeScope} {decl decl' : TypeDecl}
    {plan : Plan} (h : Migrated added scope scope') (hreads : plan.Reads scope decl)
    (hkind : decl'.kind = decl.kind)
    (hmethods : List.Forall₂ (Carried plan) decl.methods decl'.methods) :
    Settled (Framework.enterValue ∉ added) scope' decl' := by
  obtain ⟨enter', henter', henterRel⟩ :=
    find?_carried h (.inl rfl) hmethods hreads.creates.enter
  obtain ⟨exit', hexit', hexitRel⟩ := find?_carried h (.inr rfl) hmethods hreads.creates.exit
  have hkind' : decl'.kind = .class := hkind.trans hreads.creates.kind
  have hsharedEnter : AdviceLocals.sharedOf (enter'.bind (·.bound? decl')) = [] :=
    sharedOf_enter_eq_nil hreads henterRel
  constructor
  · intro plan' hplan'
    have hcreates := Plan.creates_of_create hplan'
    obtain rfl : enter' = plan'.enter := Except.ok.inj (henter'.symm.trans hcreates.enter)
    obtain rfl : exit' = plan'.exit := Except.ok.inj (hexit'.symm.trans hcreates.exit)
    have hshared : plan'.locals.enter = [] :=
      (AdviceLocals.create_eq_ok hcreates.locals).1.trans hsharedEnter
    rw [Plan.hasChanges, enterWrites_again henterRel, exitWrites_again hexitRel,
      AdviceLocals.hasShared, hshared]
    rfl
  · intro hadded
    obtain ⟨locals, hlocals⟩ := AdviceLocals.create_of_shared_nil hsharedEnter
      (sharedOf_exit_eq_nil hreads hexitRel)
      fun _ => length_entered_again hreads hadded hexitRel
    rw [Plan.create_eq hkind' henter' hexit', checkExit?_again hreads hadded henterRel hexitRel,
      hlocals]
    split <;> exact ⟨_, rfl⟩

/-! ### Classes without changes -/

/-- Whether an annotation that starts with the name of the container class does not say that its method has been migrated. -/
def ClearOfContainer (scope : TypeScope) (method : Method) : Prop :=
  ∀ annot ∈ method.annotations, TypeScope.headSegment annot.name = containerClass →
    ∀ qualified, scope.resolve? annot.name = some qualified →
      Framework.isAssignReturned qualified = false

theorem Rewritten.refl (method : Method) : Rewritten [] [] [] method method where
  id := rfl
  annotations := .refl _
  params := by
    have hsame : cleaned [] = fun param => param := funext fun _ => rfl
    simp [hsame]

/-- A plan that changes nothing leaves the methods of its class as they are. -/
theorem carried_of_not_hasChanges {plan : Plan} {scope : TypeScope} {decl : TypeDecl}
    (hreads : plan.Reads scope decl) (h : plan.hasChanges = false) (method : Method) :
    Carried plan method method := by
  simp only [Plan.hasChanges, AdviceLocals.hasShared, Bool.or_eq_false_iff, Bool.not_eq_false',
    List.isEmpty_iff] at h
  obtain ⟨⟨henter, hexit⟩, hshared⟩ := h
  have hshared' : plan.locals.exit = [] := by
    rw [← List.length_eq_zero_iff, ← hreads.length, hshared]
    rfl
  refine ⟨[], [], [], .refl method, ?_⟩
  constructor <;> simp [henter, hexit, hshared, hshared']

theorem isMigrated_migrated {added : List String} {scope scope' : TypeScope}
    (h : Migrated added scope scope') {decl decl' : TypeDecl} {advice advice' : AdviceMethod}
    (hmethods : decl'.methods = decl.methods) (hid : advice'.id = advice.id)
    (hclear : ∀ method ∈ decl.methods, ClearOfContainer scope method)
    (hmigrated : advice.isMigrated decl scope = true) :
    advice'.isMigrated decl' scope' = true := by
  rw [AdviceMethod.isMigrated, TypeDecl.method?] at hmigrated ⊢
  rw [hmethods, hid]
  split at hmigrated
  next => cases hmigrated
  next method hmethod =>
    rw [List.any_eq_true] at hmigrated ⊢
    obtain ⟨annot, hannot, hassign⟩ := hmigrated
    refine ⟨annot, hannot, ?_⟩
    split at hassign
    next qualified hresolve =>
      have hhead : TypeScope.headSegment annot.name ≠ containerClass := by
        intro hhead
        have hclear' := hclear method (List.mem_of_find?_eq_some hmethod) annot hannot hhead
          qualified hresolve
        rw [hclear'] at hassign
        cases hassign
      rw [h.resolve?_assignReturned hresolve hhead]
      exact hassign
    next => cases hassign

theorem forall₂_toList {plan : Plan} {added : List String} {found found' : Option AdviceMethod}
    (h : Option.Rel (Follows plan added) found found') :
    List.Forall₂ (Follows plan added) found.toList found'.toList := by
  cases h with
  | none => exact .nil
  | some hfollow => exact .cons hfollow .nil

theorem isDone_migrated {added : List String} {scope scope' : TypeScope} {decl decl' : TypeDecl}
    {plan : Plan} {enter exit enter' exit' : Option AdviceMethod}
    (h : Migrated added scope scope') (hmethods : decl'.methods = decl.methods)
    (hclear : ∀ method ∈ decl.methods, ClearOfContainer scope method)
    (henter : Option.Rel (Follows plan added) enter enter')
    (hexit : Option.Rel (Follows plan added) exit exit')
    (hdone : Plan.isDone decl scope enter exit = true) :
    Plan.isDone decl' scope' enter' exit' = true := by
  have hfollow : List.Forall₂ (Follows plan added) (enter.toList ++ exit.toList)
      (enter'.toList ++ exit'.toList) :=
    List.rel_append (forall₂_toList henter) (forall₂_toList hexit)
  rw [Plan.isDone, Bool.or_eq_true] at hdone ⊢
  refine hdone.imp (fun hempty => ?_) fun hany => ?_
  · rw [List.isEmpty_iff] at hempty ⊢
    rwa [hempty, List.forall₂_nil_left_iff] at hfollow
  · rw [List.any_eq_true] at hany ⊢
    obtain ⟨advice, hmem, hmigrated⟩ := hany
    obtain ⟨index, hlt, rfl⟩ := List.mem_iff_getElem.1 hmem
    obtain ⟨hlength, hall⟩ := List.forall₂_iff_get.1 hfollow
    exact ⟨_, List.getElem_mem (hlength ▸ hlt),
      isMigrated_migrated h hmethods (hall index hlt (hlength ▸ hlt)).1 hclear hmigrated⟩

/-- A class without a plan has none after the migration of its unit either. -/
theorem create_of_none {added : List String} {scope scope' : TypeScope} {decl decl' : TypeDecl}
    (h : Migrated added scope scope') (hplan : Plan.create decl scope = .ok none)
    (hkind : decl'.kind = decl.kind) (hmethods : decl'.methods = decl.methods)
    (hclear : ∀ method ∈ decl.methods, ClearOfContainer scope method) :
    Plan.create decl' scope' = .ok none := by
  by_cases hclass : decl.kind = .class
  · obtain ⟨enter, exit, henter, hexit⟩ := Plan.find?_of_create hclass hplan
    have hdone : Plan.isDone decl scope enter exit = true := by
      by_contra hdone
      rw [Plan.create_eq hclass henter hexit, if_neg hdone] at hplan
      obtain ⟨_, -, hplan⟩ := except_bind_eq_ok.1 hplan
      obtain ⟨_, -, hplan⟩ := except_bind_eq_ok.1 hplan
      cases hplan
    -- No plan is carried out here, so the methods follow the empty one.
    have hcarried :
        List.Forall₂ (Carried ⟨none, none, [], [], none⟩) decl.methods decl'.methods := by
      rw [hmethods, List.forall₂_same]
      intro method _
      refine ⟨[], [], [], .refl method, ?_⟩
      constructor <;> simp
    obtain ⟨enter', henter', henterRel⟩ := find?_carried h (.inl rfl) hcarried henter
    obtain ⟨exit', hexit', hexitRel⟩ := find?_carried h (.inr rfl) hcarried hexit
    rw [Plan.create_eq (hkind.trans hclass) henter' hexit', if_pos]
    exact isDone_migrated h hmethods hclear henterRel hexitRel hdone
  · rw [Plan.create, if_pos (by simpa [hkind] using hclass)]

end AdviceMigration.Advice
