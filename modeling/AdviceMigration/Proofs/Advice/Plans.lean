import AdviceMigration.Proofs.Advice.Heads
import AdviceMigration.Proofs.Source.Mentions

/-!
# Plans of migrated classes

What a plan says about the methods of its class, and why the plan for a migrated class has nothing to change. Nothing is shared any more, since the parameters that shared values are gone; and nothing is written, since the elements that made bindings writable are.
-/

namespace AdviceMigration.Advice

open AdviceMigration.Source AdviceMigration.Scope

/-! ### Results -/

theorem except_bind_eq_ok {ε α β : Type} {result : Except ε α} {next : α → Except ε β} {value : β} :
    result >>= next = .ok value ↔ ∃ first, result = .ok first ∧ next first = .ok value := by
  cases result with
  | error error =>
    constructor
    · rintro ⟨⟩
    · rintro ⟨_, ⟨⟩, -⟩
  | ok first =>
    constructor
    · exact fun h => ⟨first, rfl, h⟩
    · rintro ⟨_, ⟨⟩, h⟩
      exact h

theorem mapM_eq_ok_iff {ε α β : Type} {f : α → Except ε β} {items : List α} {results : List β} :
    items.mapM f = .ok results ↔ List.Forall₂ (fun item result => f item = .ok result)
      items results := by
  induction items generalizing results with
  | nil =>
    rw [List.mapM_nil, List.forall₂_nil_left_iff]
    exact ⟨fun h => (Except.ok.inj h).symm, fun h => h ▸ rfl⟩
  | cons item rest ih =>
    rw [List.mapM_cons, List.forall₂_cons_left_iff, except_bind_eq_ok]
    constructor
    · rintro ⟨first, hfirst, h⟩
      obtain ⟨others, hothers, h⟩ := except_bind_eq_ok.1 h
      exact ⟨first, others, hfirst, ih.1 hothers, (Except.ok.inj h).symm⟩
    · rintro ⟨first, others, hfirst, hothers, rfl⟩
      exact ⟨first, hfirst, except_bind_eq_ok.2 ⟨others, ih.2 hothers, rfl⟩⟩

theorem exists_sublist_of_forall₂ {α β : Type} {R : α → β → Prop} {items items' : List α}
    {results : List β} (h : List.Forall₂ R items results) (hsub : items'.Sublist items) :
    ∃ results', results'.Sublist results ∧ List.Forall₂ R items' results' := by
  induction hsub generalizing results with
  | slnil => exact ⟨[], List.nil_sublist _, .nil⟩
  | cons item _ ih =>
    obtain ⟨result, rest, -, hrest, rfl⟩ := List.forall₂_cons_left_iff.1 h
    obtain ⟨results', hsub', h'⟩ := ih hrest
    exact ⟨results', hsub'.cons _, h'⟩
  | cons_cons item _ ih =>
    obtain ⟨result, rest, hitem, hrest, rfl⟩ := List.forall₂_cons_left_iff.1 h
    obtain ⟨results', hsub', h'⟩ := ih hrest
    exact ⟨result :: results', hsub'.cons_cons _, .cons hitem h'⟩

/-! ### Bindings of a migrated method -/

namespace Binding

/-- A parameter that receives the carrier is bound to what the enter method returned, if to anything. -/
theorem ofParam_receives {scope : TypeScope} (hwf : scope.WellFormed) {param : Param}
    (h : Receives param) :
    ∃ binding, ofParam scope param = .ok binding ∧
      (binding.role = .entered ∨ binding.role = .unbound) := by
  cases hfind : findRole? scope 0 param.annotations with
  | none => exact ⟨_, by rw [ofParam, hfind], .inr rfl⟩
  | some found =>
    obtain ⟨index, qualified, annot⟩ := found
    obtain ⟨-, hget, hresolve, hrole⟩ := findRole?_eq_some hfind
    have hsuffix : "Enter".toList <:+ qualified.toList :=
      (h annot (List.mem_of_getElem? hget)).trans (TypeScope.endsWith_resolve? hwf hresolve).suffix
    have hall : ∀ name ∈ roleNames, "Enter".toList <:+ name.toList → name = Framework.enterValue :=
      by decide +kernel
    obtain rfl := hall qualified hrole hsuffix
    exact ⟨_, ofParam_of_findRole? hfind rfl rfl, .inl rfl⟩

theorem exists_kept {added : List String} {scope scope' : TypeScope}
    (h : Migrated added scope scope') (writes : List Binding) {params : List Param}
    {bindings : List Binding}
    (hbindings : List.Forall₂ (fun param binding => ofParam scope param = .ok binding) params
      bindings) :
    ∃ kept, List.Forall₂ (Rebound added writes) bindings kept ∧
      List.Forall₂ (fun param binding => ofParam scope' param = .ok binding)
        (params.map (cleaned writes)) kept := by
  induction hbindings with
  | nil => exact ⟨[], .nil, .nil⟩
  | cons hparam _ ih =>
    obtain ⟨binding', hbinding', hrebound⟩ := ofParam_migrated h hparam writes
    obtain ⟨kept, hrest, hrest'⟩ := ih
    exact ⟨binding' :: kept, .cons hrebound hrest, .cons hbinding' hrest'⟩

theorem exists_received {scope : TypeScope} (hwf : scope.WellFormed) {params : List Param}
    (h : ∀ param ∈ params, Receives param) :
    ∃ received, List.Forall₂ (fun param binding => ofParam scope param = .ok binding) params
        received ∧
      ∀ binding ∈ received, binding.role = .entered ∨ binding.role = .unbound := by
  induction params with
  | nil => exact ⟨[], .nil, by simp⟩
  | cons param rest ih =>
    rw [List.forall_mem_cons] at h
    obtain ⟨binding, hbinding, hrole⟩ := ofParam_receives hwf h.1
    obtain ⟨received, hrest, hroles⟩ := ih h.2
    exact ⟨binding :: received, .cons hbinding hrest, List.forall_mem_cons.2 ⟨hrole, hroles⟩⟩

/-- What the bindings of a method become when it is migrated: those of the parameters `removed` are gone, the others are what they were without the elements of `writes`, and up to `extra` new ones receive what the enter method returned. -/
def Reread (added : List String) (removed : List NodeId) (writes : List Binding) (extra : Nat)
    (bindings bindings' : List Binding) : Prop :=
  ∃ kept received, bindings'.Sublist (kept ++ received) ∧
    List.Forall₂ (Rebound added writes)
      (bindings.filter fun binding => !removed.contains binding.param) kept ∧
    received.length = extra ∧
    ∀ binding ∈ received, binding.role = .entered ∨ binding.role = .unbound

theorem ofMethod_rewritten {added : List String} {scope scope' : TypeScope}
    (h : Migrated added scope scope') {removed : List NodeId} {writes : List Binding}
    {extra : List Param} {method method' : Method}
    (hrewritten : Rewritten removed writes extra method method')
    (hextra : ∀ param ∈ extra, Receives param) {bindings : List Binding}
    (hbindings : ofMethod scope method = .ok bindings) :
    ∃ bindings', ofMethod scope' method' = .ok bindings' ∧
      Reread added removed writes extra.length bindings bindings' := by
  have hkept : List.Forall₂ (fun param binding => ofParam scope param = .ok binding)
      (method.params.filter fun param => !removed.contains param.id)
      (bindings.filter fun binding => !removed.contains binding.param) := by
    refine List.rel_filter ?_ (mapM_eq_ok_iff.1 hbindings)
    intro param binding hparam
    simp only [(ofParam_eq_ok hparam).1]
  obtain ⟨kept, hrebound, hkept'⟩ := exists_kept h writes hkept
  obtain ⟨received, hreceived, hroles⟩ := exists_received h.wellFormed' hextra
  obtain ⟨bindings', hsub, hbindings'⟩ :=
    exists_sublist_of_forall₂ (List.rel_append hkept' hreceived) hrewritten.params
  exact ⟨bindings', mapM_eq_ok_iff.2 hbindings', kept, received, hsub, hrebound,
    hreceived.length_eq.symm, hroles⟩

namespace Reread

variable {added : List String} {removed : List NodeId} {writes : List Binding} {extra : Nat}
  {bindings bindings' : List Binding} (h : Reread added removed writes extra bindings bindings')

include h in
/-- A binding of a migrated method has the role of one that was there before, unless it receives what the enter method returned, or nothing. -/
theorem role_cases {binding' : Binding} (hmem : binding' ∈ bindings') :
    (binding'.role = .entered ∨ binding'.role = .unbound) ∨
      ∃ binding ∈ bindings, binding.param ∉ removed ∧ binding'.role = binding.role ∧
        (binding'.readOnly = true ∨
          (binding'.readOnly = binding.readOnly ∧ binding ∉ writes)) := by
  obtain ⟨kept, received, hsub, hkept, -, hreceived⟩ := h
  rcases List.mem_append.1 (hsub.subset hmem) with hmem | hmem
  · obtain ⟨index, hlt, rfl⟩ := List.mem_iff_getElem.1 hmem
    obtain ⟨hlength, hall⟩ := List.forall₂_iff_get.1 hkept
    have hrebound := hall index (hlength ▸ hlt) hlt
    have hbinding := List.mem_filter.1 (List.getElem_mem (hlength ▸ hlt))
    rcases hrebound.role with hrole | ⟨-, hrole⟩
    · exact .inr ⟨_, hbinding.1, by simpa using hbinding.2, hrole, hrebound.readOnly⟩
    · exact .inl (.inl hrole)
  · exact .inl (hreceived _ hmem)

include h in
/-- Nothing is shared any more once the parameters that shared values are gone. -/
theorem key?_eq_none
    (hremoved : ∀ binding ∈ bindings, binding.key?.isSome = true → binding.param ∈ removed)
    {binding' : Binding} (hmem : binding' ∈ bindings') : binding'.key? = none := by
  rw [key?]
  rcases h.role_cases hmem with (hrole | hrole) | ⟨binding, hbinding, hparam, hrole, -⟩
  · rw [hrole]
  · rw [hrole]
  · have hnone : binding.key? = none := by
      rw [← Option.not_isSome_iff_eq_none]
      exact fun hsome => hparam (hremoved binding hbinding hsome)
    rw [hrole]
    exact hnone

include h in
/-- Nothing of a kind is written any more once the elements that made it writable are gone. -/
theorem filter_writable_eq_nil {kind : Binding → Bool}
    (hkind : ∀ binding binding' : Binding, binding'.role = binding.role → kind binding' =
      kind binding)
    (hwrites : ∀ binding ∈ bindings, binding.isWritable = true → kind binding = true →
      binding ∈ writes) :
    bindings'.filter (fun binding => binding.isWritable && kind binding) = [] := by
  rw [List.filter_eq_nil_iff]
  intro binding' hmem
  rw [Bool.and_eq_true, not_and]
  intro hwritable hkind'
  rw [isWritable, Bool.and_eq_true, Bool.not_eq_true'] at hwritable
  rcases h.role_cases hmem with (hrole | hrole) | ⟨binding, hbinding, -, hrole, hread⟩
  · rw [hrole] at hwritable
    cases hwritable.2
  · rw [hrole] at hwritable
    cases hwritable.2
  · rcases hread with hread | ⟨hread, hnot⟩
    · rw [hread] at hwritable
      cases hwritable.1
    · refine hnot (hwrites binding hbinding ?_ (hkind _ _ hrole ▸ hkind'))
      rw [isWritable, ← hread, ← hrole, hwritable.1, hwritable.2]
      rfl

include h in
/-- Without an import of `Enter`, what receives the value of the enter method is what did before or is new. -/
theorem length_entered_le (hadded : Framework.enterValue ∉ added) :
    (bindings'.filter (·.isEntered)).length ≤
      ((bindings.filter fun binding => !removed.contains binding.param).filter
        (·.isEntered)).length + extra := by
  obtain ⟨kept, received, hsub, hkept, hlength, -⟩ := h
  have hentered : List.Forall₂ (Rebound added writes)
      ((bindings.filter fun binding => !removed.contains binding.param).filter (·.isEntered))
      (kept.filter (·.isEntered)) := by
    refine List.rel_filter ?_ hkept
    intro binding binding' hrebound
    have hrole := hrebound.role.resolve_right fun hand => hadded hand.1
    simp only [isEntered, hrole]
  calc (bindings'.filter (·.isEntered)).length
      ≤ ((kept ++ received).filter (·.isEntered)).length := (hsub.filter _).length_le
    _ = (kept.filter (·.isEntered)).length + (received.filter (·.isEntered)).length := by
      rw [List.filter_append, List.length_append]
    _ ≤ _ := by
      rw [← hentered.length_eq, ← hlength]
      exact Nat.add_le_add_left (List.length_filter_le _ _) _

end Reread

end Binding

/-! ### Reading plans -/

theorem findAnnot?_eq_some {annots : List Annot} {scope : TypeScope} {qualified : String}
    {index : Nat} (h : findAnnot? annots scope qualified = some index) :
    ∃ annot, annots[index]? = some annot ∧ scope.resolve? annot.name = some qualified := by
  obtain ⟨hlt, hresolve, -⟩ := List.findIdx?_eq_some_iff_getElem.1 h
  exact ⟨annots[index], List.getElem?_eq_getElem hlt, by simpa using hresolve⟩

theorem isSome_findAnnot? {annots : List Annot} {scope : TypeScope} {qualified : String} :
    (findAnnot? annots scope qualified).isSome = true ↔
      ∃ annot ∈ annots, scope.resolve? annot.name = some qualified := by
  rw [findAnnot?, List.findIdx?_isSome, List.any_eq_true]
  simp

namespace AdviceMethod

theorem mem_marked {decl : TypeDecl} {scope : TypeScope} {marker : String} {method : Method}
    {index : Nat} (h : (method, index) ∈ marked decl scope marker) :
    method ∈ decl.methods ∧ findAnnot? method.annotations scope marker = some index := by
  obtain ⟨other, hother, h⟩ := List.mem_filterMap.1 h
  obtain ⟨position, hfound, heq⟩ := Option.map_eq_some_iff.1 h
  cases heq
  exact ⟨hother, hfound⟩

theorem find?_eq_none {decl : TypeDecl} {scope : TypeScope} {marker shortName : String}
    (h : find? decl scope marker shortName = .ok none) : marked decl scope marker = [] := by
  unfold find? at h
  split at h
  · assumption
  · obtain ⟨bindings, -, h⟩ := except_bind_eq_ok.1 h
    cases h
  · cases h

/-- The one method with a marker. -/
structure Found (decl : TypeDecl) (scope : TypeScope) (marker : String) (advice : AdviceMethod)
    (method : Method) : Prop where
  marked : ∃ index, marked decl scope marker = [(method, index)]
  mem : method ∈ decl.methods
  id : advice.id = method.id
  bindings : Binding.ofMethod scope method = .ok advice.bindings
  markerName : scope.resolve? advice.markerName = some marker

theorem find?_eq_some {decl : TypeDecl} {scope : TypeScope} {marker shortName : String}
    {advice : AdviceMethod} (h : find? decl scope marker shortName = .ok (some advice)) :
    ∃ method, Found decl scope marker advice method := by
  unfold find? at h
  split at h
  next => cases h
  next method index hmarked =>
    obtain ⟨bindings, hbindings, h⟩ := except_bind_eq_ok.1 h
    cases h
    have hmem := mem_marked (hmarked ▸ List.mem_singleton_self (method, index))
    obtain ⟨annot, hget, hresolve⟩ := findAnnot?_eq_some hmem.2
    refine ⟨method, ⟨index, hmarked⟩, hmem.1, rfl, hbindings, ?_⟩
    rw [hget]
    exact hresolve
  next => cases h

theorem Found.method?_eq {decl : TypeDecl} {scope : TypeScope} {marker : String}
    {advice : AdviceMethod} {method : Method} (h : Found decl scope marker advice method)
    (hnodup : (decl.methods.map (·.id)).Nodup) : decl.method? advice.id = some method := by
  rw [h.id, TypeDecl.method?]
  exact find?_id_of_mem hnodup h.mem

theorem Found.eq_of_id {decl : TypeDecl} {scope : TypeScope} {marker : String}
    {advice : AdviceMethod} {method other : Method} (h : Found decl scope marker advice method)
    (hnodup : (decl.methods.map (·.id)).Nodup) (hmem : other ∈ decl.methods)
    (hid : advice.id = other.id) : method = other :=
  List.inj_on_of_nodup_map hnodup h.mem hmem (h.id.symm.trans hid)

theorem Found.bound?_eq {decl : TypeDecl} {scope : TypeScope} {marker : String}
    {advice : AdviceMethod} {method : Method} (h : Found decl scope marker advice method)
    (hnodup : (decl.methods.map (·.id)).Nodup) :
    advice.bound? decl = some ⟨method, advice.bindings⟩ := by
  rw [bound?, h.method?_eq hnodup]
  rfl

end AdviceMethod

namespace Plan

/-- Whether a class has no advice methods or has been migrated already. -/
def isDone (decl : TypeDecl) (scope : TypeScope) (enter exit : Option AdviceMethod) : Bool :=
  (enter.toList ++ exit.toList).isEmpty ||
    (enter.toList ++ exit.toList).any (·.isMigrated decl scope)

/-- The check of an exit method, if there is one. -/
def checkExit? (enter exit : Option AdviceMethod) : Except MigrateError Unit :=
  match exit with
  | some exit => checkExit enter exit
  | none => .ok ()

/-- How a plan comes about, once the advice methods are found. -/
theorem create_eq {decl : TypeDecl} {scope : TypeScope} {enter exit : Option AdviceMethod}
    (hkind : decl.kind = .class)
    (henter : AdviceMethod.find? decl scope Framework.onMethodEnter "OnMethodEnter" = .ok enter)
    (hexit : AdviceMethod.find? decl scope Framework.onMethodExit "OnMethodExit" = .ok exit) :
    create decl scope =
      if isDone decl scope enter exit then .ok none
      else do
        checkExit? enter exit
        let locals ← AdviceLocals.create (enter.bind (·.bound? decl)) (exit.bind (·.bound? decl))
        return some ⟨enter, exit, locals⟩ := by
  rw [create, hkind, henter, hexit]
  cases exit <;> rfl

theorem find?_of_create {decl : TypeDecl} {scope : TypeScope} {plan : Option Plan}
    (hkind : decl.kind = .class) (h : create decl scope = .ok plan) :
    ∃ enter exit,
      AdviceMethod.find? decl scope Framework.onMethodEnter "OnMethodEnter" = .ok enter ∧
      AdviceMethod.find? decl scope Framework.onMethodExit "OnMethodExit" = .ok exit := by
  rw [create, hkind] at h
  obtain ⟨enter, henter, h⟩ := except_bind_eq_ok.1 h
  obtain ⟨exit, hexit, -⟩ := except_bind_eq_ok.1 h
  exact ⟨enter, exit, henter, hexit⟩

/-- What a plan says about its class. -/
structure Creates (decl : TypeDecl) (scope : TypeScope) (plan : Plan) : Prop where
  kind : decl.kind = .class
  enter : AdviceMethod.find? decl scope Framework.onMethodEnter "OnMethodEnter" = .ok plan.enter
  exit : AdviceMethod.find? decl scope Framework.onMethodExit "OnMethodExit" = .ok plan.exit
  check : checkExit? plan.enter plan.exit = .ok ()
  locals : AdviceLocals.create (plan.enter.bind (·.bound? decl)) (plan.exit.bind (·.bound? decl)) =
    .ok plan.locals

theorem creates_of_create {decl : TypeDecl} {scope : TypeScope} {plan : Plan}
    (h : create decl scope = .ok (some plan)) : Creates decl scope plan := by
  have hkind : decl.kind = .class := by
    by_contra hkind
    rw [create, if_pos (by simpa using hkind)] at h
    cases h
  obtain ⟨enter, exit, henter, hexit⟩ := find?_of_create hkind h
  rw [create_eq hkind henter hexit] at h
  split at h
  · cases h
  · obtain ⟨_, hcheck, h⟩ := except_bind_eq_ok.1 h
    obtain ⟨locals, hlocals, h⟩ := except_bind_eq_ok.1 h
    cases h
    exact ⟨hkind, henter, hexit, hcheck, hlocals⟩

end Plan

namespace AdviceLocals

/-- What one of the two methods shares. -/
def sharedOf (bound : Option BoundMethod) : List (String × HandedParam) :=
  match bound with
  | some bound => bound.shared
  | none => []

/-- What one of the two methods shares, unless a key is bound twice. -/
def sharedOnceOf (bound : Option BoundMethod) : Except MigrateError (List (String × HandedParam)) :=
  match bound with
  | some bound => bound.sharedOnce
  | none => .ok []

/-- The parameter of the exit method that receives what the enter method returned. -/
def enteredOf (bound : Option BoundMethod) : Except MigrateError (Option EnterParam) :=
  match bound with
  | some bound => bound.entered
  | none => .ok none

theorem create_eq (enter exit : Option BoundMethod) :
    create enter exit = (do
      let enterShared ← sharedOnceOf enter
      let exitEnter ← enteredOf exit
      let exitShared ← sharedOnceOf exit
      if enterShared.length == exitShared.length &&
          enterShared.all fun entry => exitShared.any fun other => other.1 == entry.1 then
        .ok ⟨enterShared, exitShared, exitEnter⟩
      else .error (.mismatchedLocals (sortedKeys enterShared) (sortedKeys exitShared))) := by
  cases enter <;> cases exit <;> rfl

theorem eq_sharedOf_of_sharedOnceOf {bound : Option BoundMethod}
    {shared : List (String × HandedParam)} (h : sharedOnceOf bound = .ok shared) :
    shared = sharedOf bound := by
  cases bound with
  | none =>
    cases h
    rfl
  | some bound =>
    rw [sharedOnceOf, BoundMethod.sharedOnce] at h
    split at h
    · cases h
    · cases h
      rfl

theorem sharedOnceOf_of_nil {bound : Option BoundMethod} (h : sharedOf bound = []) :
    sharedOnceOf bound = .ok [] := by
  cases bound with
  | none => rfl
  | some bound =>
    rw [sharedOf] at h
    rw [sharedOnceOf, BoundMethod.sharedOnce, h]
    rfl

theorem create_eq_ok {enter exit : Option BoundMethod} {locals : AdviceLocals}
    (h : create enter exit = .ok locals) :
    locals.enter = sharedOf enter ∧ locals.exit = sharedOf exit ∧
      locals.enter.length = locals.exit.length ∧ enteredOf exit = .ok locals.exitEnter := by
  rw [create_eq] at h
  obtain ⟨enterShared, henter, h⟩ := except_bind_eq_ok.1 h
  obtain ⟨exitEnter, hentered, h⟩ := except_bind_eq_ok.1 h
  obtain ⟨exitShared, hexit, h⟩ := except_bind_eq_ok.1 h
  split at h
  next hmatch =>
    cases h
    rw [Bool.and_eq_true, beq_iff_eq] at hmatch
    exact ⟨eq_sharedOf_of_sharedOnceOf henter, eq_sharedOf_of_sharedOnceOf hexit, hmatch.1,
      hentered⟩
  next => cases h

/-- Methods that share nothing hand over at most what the enter method returns. -/
theorem create_of_shared_nil {enter exit : Option BoundMethod} (henter : sharedOf enter = [])
    (hexit : sharedOf exit = [])
    (hentered : ∀ bound, exit = some bound → (bound.bindings.filter (·.isEntered)).length ≤ 1) :
    ∃ locals, create enter exit = .ok locals := by
  have hentered' : ∃ exitEnter, enteredOf exit = .ok exitEnter := by
    cases exit with
    | none => exact ⟨none, rfl⟩
    | some bound =>
      have hlength := hentered bound rfl
      rw [enteredOf, BoundMethod.entered]
      generalize bound.bindings.filter (·.isEntered) = entered at hlength ⊢
      cases entered with
      | nil => exact ⟨none, rfl⟩
      | cons binding rest =>
        cases rest with
        | nil => exact ⟨bound.enterParam? binding, rfl⟩
        | cons second others => simp at hlength
  obtain ⟨exitEnter, hexitEnter⟩ := hentered'
  rw [create_eq, sharedOnceOf_of_nil henter, sharedOnceOf_of_nil hexit, hexitEnter]
  exact ⟨_, rfl⟩

end AdviceLocals

/-! ### What a plan says about bindings -/

/-- What is known about a class from its plan, with its advice methods at hand. -/
structure Plan.Reads (scope : TypeScope) (decl : TypeDecl) (plan : Plan) : Prop where
  creates : plan.Creates decl scope
  sharedEnter : ∀ enter, plan.enter = some enter →
    ∀ binding ∈ enter.bindings, binding.key?.isSome = true →
      binding.param ∈ plan.locals.enter.map (·.2.param)
  sharedExit : ∀ exit, plan.exit = some exit →
    ∀ binding ∈ exit.bindings, binding.key?.isSome = true →
      binding.param ∈ plan.locals.exit.map (·.2.param)
  length : plan.locals.enter.length = plan.locals.exit.length
  entered : ∀ exit, plan.exit = some exit → (exit.bindings.filter (·.isEntered)).length ≤ 1 ∧
    ∀ binding ∈ exit.bindings, binding.isEntered = true →
      ∃ enter, plan.locals.exitEnter = some enter ∧ enter.value.param = binding.param
  spelled : ∀ enter, plan.locals.exitEnter = some enter →
    "Enter".toList <:+ enter.annot.name.toList
  marker : ∀ exit, plan.exit = some exit → "OnMethodExit".toList <:+ exit.markerName.toList
  withoutEnter : plan.enter = none → plan.locals.isNonempty = false ∧
    ∀ exit, plan.exit = some exit → exit.hasEntered = false

/-- A name that stands for a framework type ends like its last segment. -/
theorem suffix_of_resolve? {scope : TypeScope} (hwf : scope.WellFormed)
    {written qualified last : String} (h : scope.resolve? written = some qualified)
    (hlast : lastSegment qualified = last) : last.toList <:+ written.toList := by
  rw [← hlast, (TypeScope.endsWith_resolve? hwf h).lastSegment_eq]
  exact (endsWith_lastSegment written).suffix

theorem lastSegment_enterValue : lastSegment Framework.enterValue = "Enter" := by
  decide +kernel

theorem lastSegment_onMethodExit : lastSegment Framework.onMethodExit = "OnMethodExit" := by
  decide +kernel

theorem mem_shared_of_key? {bound : BoundMethod} {binding : Binding}
    (hmem : binding ∈ bound.bindings) (h : binding.key?.isSome = true) :
    binding.param ∈ bound.shared.map (·.2.param) := by
  obtain ⟨key, hkey⟩ := Option.isSome_iff_exists.1 h
  refine List.mem_map.2 ⟨(key, .ofBinding binding), ?_, rfl⟩
  exact List.mem_filterMap.2 ⟨binding, hmem, by rw [hkey]; rfl⟩

theorem eq_enterValue_of_roleOf {qualified : String} {annot : Annot}
    (h : Binding.roleOf qualified annot = .ok .entered) : qualified = Framework.enterValue := by
  rw [Binding.roleOf] at h
  split at h
  · split at h <;> cases h
  · split at h
    · split at h <;> cases h
    · split at h
      · split at h <;> cases h
      · split at h
        · cases h
        · split at h
          next henter => exact beq_iff_eq.1 henter
          next => cases h

/-- The parameter of a binding that receives the value of the enter method. -/
theorem enterParam?_eq_some {scope : TypeScope} {bound : BoundMethod}
    (hnodup : (bound.method.params.map (·.id)).Nodup)
    (hbindings : Binding.ofMethod scope bound.method = .ok bound.bindings) {binding : Binding}
    (hmem : binding ∈ bound.bindings) (hentered : binding.isEntered = true) :
    ∃ enter, bound.enterParam? binding = some enter ∧ enter.value.param = binding.param ∧
      scope.resolve? enter.annot.name = some Framework.enterValue := by
  obtain ⟨index, hlt, rfl⟩ := List.mem_iff_getElem.1 hmem
  obtain ⟨hlength, hall⟩ := List.forall₂_iff_get.1 (mapM_eq_ok_iff.1 hbindings)
  have hlt' : index < bound.method.params.length := hlength ▸ hlt
  have hparam := hall index hlt' hlt
  have hrole : bound.bindings[index].role = .entered := by
    rw [Binding.isEntered] at hentered
    split at hentered
    · assumption
    · cases hentered
  obtain ⟨hid, -, ⟨-, hunbound, -⟩ | ⟨qualified, annot, hfind, hroleOf, -⟩⟩ :=
    Binding.ofParam_eq_ok hparam
  · rw [List.get_eq_getElem, hrole] at hunbound
    cases hunbound
  · rw [List.get_eq_getElem] at hid hfind hroleOf
    rw [hrole] at hroleOf
    obtain ⟨-, hget, hresolve, -⟩ := Binding.findRole?_eq_some hfind
    refine ⟨⟨.ofBinding bound.bindings[index], annot⟩, ?_, rfl,
      eq_enterValue_of_roleOf hroleOf ▸ hresolve⟩
    have hfound : bound.method.param? bound.bindings[index].param =
        some bound.method.params[index] := by
      rw [hid]
      exact find?_id_of_mem hnodup (List.getElem_mem hlt')
    have hannot : bound.method.params[index].annotations[bound.bindings[index].annotIndex]? =
        some annot := hget
    rw [BoundMethod.enterParam?, hfound]
    simp only [Option.bind_eq_bind, Option.bind_some, hannot, Option.pure_def]

/-- The exit parameter for the value of the enter method, and its annotation. -/
theorem entered_eq_ok {scope : TypeScope} {bound : BoundMethod} {exitEnter : Option EnterParam}
    (hnodup : (bound.method.params.map (·.id)).Nodup)
    (hbindings : Binding.ofMethod scope bound.method = .ok bound.bindings)
    (h : bound.entered = .ok exitEnter) :
    (bound.bindings.filter (·.isEntered)).length ≤ 1 ∧
      (∀ binding ∈ bound.bindings, binding.isEntered = true →
        ∃ enter, exitEnter = some enter ∧ enter.value.param = binding.param) ∧
      ∀ enter, exitEnter = some enter →
        scope.resolve? enter.annot.name = some Framework.enterValue := by
  have hfilter : ∀ binding, binding ∈ bound.bindings.filter (·.isEntered) ↔
      binding ∈ bound.bindings ∧ binding.isEntered = true := fun binding => List.mem_filter
  rw [BoundMethod.entered] at h
  split at h
  next hnil =>
    cases h
    rw [hnil] at hfilter
    refine ⟨by rw [hnil]; exact Nat.zero_le _, fun binding hmem hentered => ?_, by simp⟩
    cases (hfilter binding).2 ⟨hmem, hentered⟩
  next only honly =>
    cases h
    rw [honly] at hfilter
    have hmem := (hfilter only).1 (List.mem_singleton_self only)
    obtain ⟨enter, henter, hvalue, hresolve⟩ := enterParam?_eq_some hnodup hbindings hmem.1 hmem.2
    refine ⟨by rw [honly]; exact Nat.le_refl _, fun binding hmem hentered => ?_, ?_⟩
    · rw [List.mem_singleton.1 ((hfilter binding).2 ⟨hmem, hentered⟩)]
      exact ⟨enter, henter, hvalue⟩
    · intro enter' henter'
      rw [henter, Option.some_inj] at henter'
      exact henter' ▸ hresolve
  next => cases h

theorem hasEntered_of_checkExit {exit : AdviceMethod} (h : Plan.checkExit none exit = .ok ()) :
    (exit.bindings.any (·.isEntered)) = false := by
  rw [Plan.checkExit] at h
  split at h
  · cases h
  · split at h
    next => cases h
    next hentered => simpa [AdviceMethod.hasEntered] using hentered

theorem entered_of_hasEntered {bound : BoundMethod}
    (h : (bound.bindings.any (·.isEntered)) = false) : bound.entered = .ok none := by
  have hnil : bound.bindings.filter (·.isEntered) = [] := by
    rw [List.filter_eq_nil_iff]
    simpa using h
  rw [BoundMethod.entered, hnil]

theorem AdviceMethod.of_mem_writable {advice : AdviceMethod} {kind : Binding → Bool}
    {binding : Binding} (h : binding ∈ advice.writable kind) :
    binding ∈ advice.bindings ∧ binding.isWritable = true := by
  obtain ⟨hmem, hkind⟩ := List.mem_filter.1 h
  exact ⟨hmem, (Bool.and_eq_true_iff.1 hkind).1⟩

theorem Plan.of_mem_enterWrites {plan : Plan} {enter : AdviceMethod}
    (hsome : plan.enter = some enter) {binding : Binding} (h : binding ∈ plan.enterWrites) :
    binding ∈ enter.bindings ∧ binding.isWritable = true := by
  rw [Plan.enterWrites, hsome] at h
  exact (List.mem_append.1 h).elim AdviceMethod.of_mem_writable AdviceMethod.of_mem_writable

theorem Plan.of_mem_exitWrites {plan : Plan} {exit : AdviceMethod}
    (hsome : plan.exit = some exit) {binding : Binding} (h : binding ∈ plan.exitWrites) :
    binding ∈ exit.bindings ∧ binding.isWritable = true := by
  rw [Plan.exitWrites, hsome] at h
  exact (List.mem_append.1 h).elim AdviceMethod.of_mem_writable AdviceMethod.of_mem_writable

namespace Plan.Creates

variable {decl : TypeDecl} {scope : TypeScope} {plan : Plan} (h : plan.Creates decl scope)
  (hmethods : (decl.methods.map (·.id)).Nodup)

include h hmethods

/-- The enter method, which shares its parameters in their order. -/
theorem exists_enter {enter : AdviceMethod} (hsome : plan.enter = some enter) :
    ∃ method, AdviceMethod.Found decl scope Framework.onMethodEnter enter method ∧
      plan.locals.enter = BoundMethod.shared ⟨method, enter.bindings⟩ := by
  obtain ⟨method, hfound⟩ := AdviceMethod.find?_eq_some (hsome ▸ h.enter)
  refine ⟨method, hfound, ?_⟩
  rw [(AdviceLocals.create_eq_ok h.locals).1, hsome, Option.bind_some, hfound.bound?_eq hmethods]
  rfl

/-- The exit method, which shares its parameters in their order, and its parameter for the value of the enter method. -/
theorem exists_exit {exit : AdviceMethod} (hsome : plan.exit = some exit) :
    ∃ method, AdviceMethod.Found decl scope Framework.onMethodExit exit method ∧
      plan.locals.exit = BoundMethod.shared ⟨method, exit.bindings⟩ ∧
      BoundMethod.entered ⟨method, exit.bindings⟩ = .ok plan.locals.exitEnter := by
  obtain ⟨method, hfound⟩ := AdviceMethod.find?_eq_some (hsome ▸ h.exit)
  obtain ⟨-, hexit, -, hentered⟩ := AdviceLocals.create_eq_ok h.locals
  rw [hsome, Option.bind_some, hfound.bound?_eq hmethods] at hexit hentered
  exact ⟨method, hfound, hexit, hentered⟩

/-- Without an enter method nothing is shared, and the exit method receives no value from one. -/
theorem withoutEnter (hnone : plan.enter = none) : plan.locals.isNonempty = false ∧
    ∀ exit, plan.exit = some exit → exit.hasEntered = false := by
  obtain ⟨henter, -, -, hentered⟩ := AdviceLocals.create_eq_ok h.locals
  have hcheck := h.check
  rw [hnone] at henter hcheck
  have hwithout : ∀ exit, plan.exit = some exit → exit.hasEntered = false := by
    intro exit hsome
    rw [hsome] at hcheck
    exact hasEntered_of_checkExit hcheck
  have hexitEnter : plan.locals.exitEnter = none := by
    cases hsome : plan.exit with
    | none =>
      rw [hsome] at hentered
      exact (Except.ok.inj hentered).symm
    | some exit =>
      obtain ⟨method, -, -, hok⟩ := h.exists_exit hmethods hsome
      exact Except.ok.inj (hok.symm.trans (entered_of_hasEntered (hwithout exit hsome)))
  refine ⟨?_, hwithout⟩
  simp [AdviceLocals.isNonempty, AdviceLocals.hasShared, henter, hexitEnter, AdviceLocals.sharedOf]

/-- What is known from the plan of a class with distinct identities. -/
theorem reads (hwf : scope.WellFormed)
    (hparams : ∀ method ∈ decl.methods, (method.params.map (·.id)).Nodup) :
    plan.Reads scope decl where
  creates := h
  sharedEnter enter hsome binding hmem hkey := by
    obtain ⟨method, -, hshared⟩ := h.exists_enter hmethods hsome
    rw [hshared]
    exact mem_shared_of_key? hmem hkey
  sharedExit exit hsome binding hmem hkey := by
    obtain ⟨method, -, hshared, -⟩ := h.exists_exit hmethods hsome
    rw [hshared]
    exact mem_shared_of_key? hmem hkey
  length := (AdviceLocals.create_eq_ok h.locals).2.2.1
  entered exit hsome := by
    obtain ⟨method, hfound, -, hok⟩ := h.exists_exit hmethods hsome
    obtain ⟨hlength, hall, -⟩ := entered_eq_ok (hparams method hfound.mem) hfound.bindings hok
    exact ⟨hlength, hall⟩
  spelled enter henter := by
    cases hsome : plan.exit with
    | none =>
      have hentered := (AdviceLocals.create_eq_ok h.locals).2.2.2
      rw [hsome] at hentered
      cases hentered.trans (congrArg Except.ok henter)
    | some exit =>
      obtain ⟨method, hfound, -, hok⟩ := h.exists_exit hmethods hsome
      obtain ⟨-, -, hresolve⟩ := entered_eq_ok (hparams method hfound.mem) hfound.bindings hok
      exact suffix_of_resolve? hwf (hresolve enter henter) lastSegment_enterValue
  marker exit hsome := by
    obtain ⟨method, hfound, -, -⟩ := h.exists_exit hmethods hsome
    exact suffix_of_resolve? hwf hfound.markerName lastSegment_onMethodExit
  withoutEnter := h.withoutEnter hmethods

end Plan.Creates

end AdviceMigration.Advice
