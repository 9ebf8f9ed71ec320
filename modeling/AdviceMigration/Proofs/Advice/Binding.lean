import AdviceMigration.Advice.Plan
import AdviceMigration.Proofs.Advice.Framework
import Mathlib.Data.List.Forall2

/-!
# Bindings in a migrated unit

What a parameter is bound to once its unit has been migrated. Its role is what it was, unless an added import makes an annotation of it stand for `Enter`; and it is read-only once the element that says otherwise has been dropped.
-/

namespace AdviceMigration.Source.Annot

@[simp] theorem name_ofPairs (name : String) (named : List ElementPair) :
    (ofPairs name named).name = name := by
  unfold ofPairs
  split
  · rfl
  · split <;> rfl
  · rfl

theorem element?_ofPairs (own name : String) (named : List ElementPair) :
    (ofPairs own named).element? name =
      (named.find? fun pair => pair.name == name).map (·.value) := by
  unfold ofPairs
  split
  next => rfl
  next pair =>
    split
    next hvalue =>
      rw [beq_iff_eq] at hvalue
      rw [element?, List.find?_singleton, hvalue]
      by_cases hname : name = "value"
      · simp [hname]
      · simp [hname, Ne.symm hname]
    next => rfl
  next => rfl

/-- Dropping an element keeps the other ones. -/
theorem without_pairs (own name : String) (named : List ElementPair) :
    (pairs own named).without name = pairs own named ∧
        (named.find? fun pair => pair.name == name) = none ∨
      (pairs own named).without name =
        ofPairs own (named.filter fun pair => pair.name != name) := by
  rw [without, without?]
  split
  next => exact .inr rfl
  next hany =>
    refine .inl ⟨rfl, List.find?_eq_none.2 ?_⟩
    simpa using hany

@[simp] theorem name_without (annot : Annot) (name : String) :
    (annot.without name).name = annot.name := by
  cases annot with
  | marker own => rfl
  | single own value =>
    by_cases hname : name = "value" <;> simp [without, without?, hname, Annot.name]
  | pairs own named =>
    rcases without_pairs own name named with ⟨heq, -⟩ | heq <;> rw [heq]
    rw [name_ofPairs]
    rfl

theorem element?_without_self (annot : Annot) (name : String) :
    (annot.without name).element? name = none := by
  cases annot with
  | marker own => rfl
  | single own value =>
    by_cases hname : name = "value" <;> simp [without, without?, hname, element?]
  | pairs own named =>
    rcases without_pairs own name named with ⟨heq, hnone⟩ | heq <;> rw [heq]
    · rw [element?, hnone]
      rfl
    · simp [element?_ofPairs]

theorem element?_without_of_ne (annot : Annot) {name other : String} (hne : other ≠ name) :
    (annot.without name).element? other = annot.element? other := by
  cases annot with
  | marker own => rfl
  | single own value =>
    by_cases hname : name = "value"
    · subst hname
      simp [without, without?, element?, hne]
    · simp [without, without?, hname]
  | pairs own named =>
    rcases without_pairs own name named with ⟨heq, -⟩ | heq <;> rw [heq]
    rw [element?_ofPairs, List.find?_filter, element?]
    congr 2
    funext pair
    by_cases hpair : pair.name = other <;> simp [hpair, hne]

end AdviceMigration.Source.Annot

namespace AdviceMigration.Advice

open AdviceMigration.Source AdviceMigration.Scope AdviceMigration.Scope.TypeScope

namespace Binding

/-! ### The annotation that gives a role -/

theorem findRole?_cons_role {scope : TypeScope} {annot : Annot} {name : String}
    (hname : name ∈ roleNames) (hresolve : scope.resolve? annot.name = some name) (start : Nat)
    (rest : List Annot) : findRole? scope start (annot :: rest) = some (start, name, annot) := by
  rw [findRole?, hresolve]
  simp [hname]

theorem findRole?_cons_other {scope : TypeScope} {annot : Annot}
    (hother : ¬ ∃ name ∈ roleNames, scope.resolve? annot.name = some name) (start : Nat)
    (rest : List Annot) :
    findRole? scope start (annot :: rest) = findRole? scope (start + 1) rest := by
  rw [findRole?]
  split
  next qualified hqualified =>
    rw [if_neg]
    intro hcontains
    exact hother ⟨qualified, by simpa using hcontains, hqualified⟩
  next => rfl

theorem findRole?_eq_some {scope : TypeScope} {start index : Nat} {annots : List Annot}
    {qualified : String} {annot : Annot}
    (h : findRole? scope start annots = some (index, qualified, annot)) :
    start ≤ index ∧ annots[index - start]? = some annot ∧
      scope.resolve? annot.name = some qualified ∧ qualified ∈ roleNames := by
  induction annots generalizing start with
  | nil => cases h
  | cons first rest ih =>
    rw [findRole?] at h
    have hlater : findRole? scope (start + 1) rest = some (index, qualified, annot) →
        start ≤ index ∧ (first :: rest)[index - start]? = some annot ∧
          scope.resolve? annot.name = some qualified ∧ qualified ∈ roleNames := by
      intro h
      obtain ⟨hle, hget, hresolve⟩ := ih h
      refine ⟨Nat.le_of_succ_le hle, ?_, hresolve⟩
      rw [show index - start = (index - (start + 1)) + 1 by omega, List.getElem?_cons_succ]
      exact hget
    split at h
    next found hfound =>
      split at h
      next hrole =>
        cases h
        exact ⟨Nat.le_refl _, by simp, hfound, by simpa using hrole⟩
      next => exact hlater h
    next => exact hlater h

/-- Annotations with the same names give the role at the same position. -/
theorem findRole?_of_names {scope : TypeScope} (start : Nat) {annots annots' : List Annot}
    (h : List.Forall₂ (fun annot annot' => annot'.name = annot.name) annots annots') :
    findRole? scope start annots' =
      match findRole? scope start annots with
      | none => none
      | some (index, qualified, _) =>
        (annots'[index - start]?).map fun annot => (index, qualified, annot) := by
  induction h generalizing start with
  | nil => rfl
  | @cons annot annot' rest rest' hname _ ih =>
    have hlater : findRole? scope (start + 1) rest' =
        match findRole? scope (start + 1) rest with
        | none => none
        | some (index, qualified, _) =>
          ((annot' :: rest')[index - start]?).map fun annot => (index, qualified, annot) := by
      rw [ih]
      split
      next => rfl
      next index qualified found hfound =>
        have hle := (findRole?_eq_some hfound).1
        rw [show index - start = (index - (start + 1)) + 1 by omega, List.getElem?_cons_succ]
    rw [findRole?, findRole?, hname]
    split
    · split
      · simp
      · exact hlater
    · exact hlater

/-- A migration leaves the annotation that gives the role in place, unless it makes one in front of it stand for `Enter`. -/
theorem findRole?_migrated {added : List String} {scope scope' : TypeScope}
    (h : Migrated added scope scope') (start : Nat) (annots : List Annot) :
    findRole? scope' start annots = findRole? scope start annots ∨
      (Framework.enterValue ∈ added ∧ ∃ index annot,
        findRole? scope' start annots = some (index, Framework.enterValue, annot)) := by
  induction annots generalizing start with
  | nil => exact .inl rfl
  | cons annot rest ih =>
    have hread : ∀ {name}, name ∈ roleNames → name ∈ Framework.readNames := fun hname =>
      List.mem_cons_of_mem _ (List.mem_cons_of_mem _ hname)
    by_cases hrole : ∃ name ∈ roleNames, scope.resolve? annot.name = some name
    · obtain ⟨name, hname, hresolve⟩ := hrole
      rw [findRole?_cons_role hname hresolve,
        findRole?_cons_role hname (h.resolve?_of_some (hread hname) hresolve)]
      exact .inl rfl
    · by_cases hrole' : ∃ name ∈ roleNames, scope'.resolve? annot.name = some name
      · obtain ⟨name, hname, hresolve'⟩ := hrole'
        rcases h.some_of_resolve? (hread hname) hresolve' with hresolve | ⟨hadded, rfl⟩
        · exact absurd ⟨name, hname, hresolve⟩ hrole
        · exact .inr ⟨hadded, start, annot, findRole?_cons_role hname hresolve' start rest⟩
      · rw [findRole?_cons_other hrole, findRole?_cons_other hrole']
        exact ih (start + 1)

end Binding

/-! ### Dropping the element that says a binding is writable -/

/-- The parameter of a binding without the element that says the binding is writable. -/
def withoutReadOnly (binding : Binding) (param : Param) : Param :=
  if param.id == binding.param then
    { param with
      annotations := param.annotations.modify binding.annotIndex fun annot =>
        annot.without "readOnly" }
  else param

/-- A parameter without the elements that say some bindings are writable. -/
def cleaned (writes : List Binding) (param : Param) : Param :=
  writes.foldl (fun param binding => withoutReadOnly binding param) param

theorem params_foldl_dropReadOnly (writes : List Binding) (method : Method) :
    (writes.foldl dropReadOnly method).params = method.params.map (cleaned writes) := by
  induction writes generalizing method with
  | nil => exact (List.map_id _).symm
  | cons binding rest ih =>
    rw [List.foldl_cons, ih, dropReadOnly, List.map_map]
    rfl

/-- Whether an annotation is another one, apart perhaps from the element that says a binding is writable. -/
structure CleanedAnnot (annot annot' : Annot) : Prop where
  name : annot'.name = annot.name
  value : annot'.element? "value" = annot.element? "value"
  readOnly : annot'.element? "readOnly" = annot.element? "readOnly" ∨
    annot'.element? "readOnly" = none

namespace CleanedAnnot

theorem refl (annot : Annot) : CleanedAnnot annot annot := ⟨rfl, rfl, .inl rfl⟩

theorem without (annot : Annot) : CleanedAnnot annot (annot.without "readOnly") :=
  ⟨annot.name_without _, annot.element?_without_of_ne (by decide),
    .inr (annot.element?_without_self _)⟩

theorem trans {annot annot' annot'' : Annot} (h : CleanedAnnot annot annot')
    (h' : CleanedAnnot annot' annot'') : CleanedAnnot annot annot'' where
  name := h'.name.trans h.name
  value := h'.value.trans h.value
  readOnly := by
    rcases h'.readOnly with heq | hnone
    · rw [heq]
      exact h.readOnly
    · exact .inr hnone

theorem forall₂_trans {annots annots' annots'' : List Annot}
    (h : List.Forall₂ CleanedAnnot annots annots')
    (h' : List.Forall₂ CleanedAnnot annots' annots'') :
    List.Forall₂ CleanedAnnot annots annots'' := by
  induction h generalizing annots'' with
  | nil => exact h'
  | cons hannot _ ih =>
    obtain _ | ⟨hannot', hrest'⟩ := h'
    exact .cons (hannot.trans hannot') (ih hrest')

end CleanedAnnot

theorem forall₂_modify {α : Type} {R : α → α → Prop} (hrefl : ∀ item, R item item) {f : α → α}
    (hf : ∀ item, R item (f item)) (items : List α) (index : Nat) :
    List.Forall₂ R items (items.modify index f) := by
  induction items generalizing index with
  | nil => simp
  | cons item rest ih =>
    cases index with
    | zero => exact .cons (hf item) (List.forall₂_same.2 fun item _ => hrefl item)
    | succ index => exact .cons (hrefl item) (ih index)

theorem withoutReadOnly_annotations (binding : Binding) (param : Param) :
    List.Forall₂ CleanedAnnot param.annotations (withoutReadOnly binding param).annotations := by
  rw [withoutReadOnly]
  split
  · exact forall₂_modify .refl .without _ _
  · exact List.forall₂_same.2 fun annot _ => .refl annot

theorem withoutReadOnly_id (binding : Binding) (param : Param) :
    (withoutReadOnly binding param).id = param.id := by
  rw [withoutReadOnly]
  split <;> rfl

theorem cleaned_id (writes : List Binding) (param : Param) :
    (cleaned writes param).id = param.id := by
  induction writes generalizing param with
  | nil => rfl
  | cons binding rest ih => exact (ih _).trans (withoutReadOnly_id binding param)

theorem cleaned_annotations (writes : List Binding) (param : Param) :
    List.Forall₂ CleanedAnnot param.annotations (cleaned writes param).annotations := by
  induction writes generalizing param with
  | nil => exact List.forall₂_same.2 fun annot _ => .refl annot
  | cons binding rest ih =>
    exact CleanedAnnot.forall₂_trans (withoutReadOnly_annotations binding param) (ih _)

/-- The annotation of a binding whose element was dropped does not have the element. -/
theorem cleaned_readOnly {writes : List Binding} {binding : Binding} (hmem : binding ∈ writes)
    {param : Param} (hparam : binding.param = param.id) {annot : Annot}
    (h : (cleaned writes param).annotations[binding.annotIndex]? = some annot) :
    annot.element? "readOnly" = none := by
  induction writes generalizing param with
  | nil => cases hmem
  | cons first rest ih =>
    rcases List.mem_cons.1 hmem with rfl | hmem
    · have hclean := cleaned_annotations rest (withoutReadOnly binding param)
      obtain ⟨hlength, hall⟩ := List.forall₂_iff_get.1 hclean
      obtain ⟨hlt, rfl⟩ := List.getElem?_eq_some_iff.1 h
      have hlt' : binding.annotIndex < (withoutReadOnly binding param).annotations.length := by
        rw [hlength]
        exact hlt
      have hnone : (withoutReadOnly binding param).annotations[binding.annotIndex].element?
        "readOnly" =
          none := by
        simp only [withoutReadOnly, hparam, beq_self_eq_true, if_true, List.getElem_modify_eq]
        exact Annot.element?_without_self _ _
      rcases (hall binding.annotIndex hlt' hlt).readOnly with heq | hnone'
      · exact heq.trans hnone
      · exact hnone'
    · exact ih hmem (hparam.trans (withoutReadOnly_id first param).symm) h

/-! ### Bindings read again -/

namespace Binding

theorem roleOf_cleaned {annot annot' : Annot} (h : CleanedAnnot annot annot')
    (qualified : String) : roleOf qualified annot' = roleOf qualified annot := by
  rw [roleOf, roleOf, h.value]

/-- What becomes of a binding when its unit is migrated and the elements of the bindings `writes` are dropped. -/
structure Rebound (added : List String) (writes : List Binding) (binding binding' : Binding) :
    Prop where
  role : binding'.role = binding.role ∨
    (Framework.enterValue ∈ added ∧ binding'.role = .entered)
  readOnly : binding'.readOnly = true ∨ (binding'.readOnly = binding.readOnly ∧ binding ∉ writes)

theorem readOnlyOf_of_none {annot : Annot} (h : annot.element? "readOnly" = none)
    (role : BindingRole) : readOnlyOf role annot = .ok true := by
  cases role <;> simp [readOnlyOf, h]

theorem readOnlyOf_cleaned {annot annot' : Annot} (h : CleanedAnnot annot annot')
    {role : BindingRole} {readOnly : Bool} (hread : readOnlyOf role annot = .ok readOnly) :
    readOnlyOf role annot' = .ok readOnly ∨ readOnlyOf role annot' = .ok true := by
  rcases h.readOnly with heq | hnone
  · left
    rw [← hread]
    cases role <;> simp [readOnlyOf, heq]
  · exact .inr (readOnlyOf_of_none hnone role)

/-- What a parameter with a role annotation is bound to. -/
theorem ofParam_of_findRole? {scope : TypeScope} {param : Param} {index : Nat} {qualified : String}
    {annot : Annot} (hfind : findRole? scope 0 param.annotations = some (index, qualified, annot))
    {role : BindingRole} (hrole : roleOf qualified annot = .ok role) {readOnly : Bool}
    (hread : readOnlyOf role annot = .ok readOnly) :
    ofParam scope param =
      .ok ⟨param.id, param.name, param.declaredType, role, readOnly, index⟩ := by
  rw [ofParam, hfind]
  simp only [hrole, hread]

/-- A binding comes from a role annotation, or there is none. -/
theorem ofParam_eq_ok {scope : TypeScope} {param : Param} {binding : Binding}
    (h : ofParam scope param = .ok binding) :
    binding.param = param.id ∧ binding.name = param.name ∧
      ((findRole? scope 0 param.annotations = none ∧ binding.role = .unbound ∧
          binding.readOnly = true) ∨
        ∃ qualified annot,
          findRole? scope 0 param.annotations = some (binding.annotIndex, qualified, annot) ∧
          roleOf qualified annot = .ok binding.role ∧
          readOnlyOf binding.role annot = .ok binding.readOnly) := by
  rw [ofParam] at h
  split at h
  next hnone =>
    cases h
    exact ⟨rfl, rfl, .inl ⟨hnone, rfl, rfl⟩⟩
  next index qualified annot hfound =>
    split at h
    next => cases h
    next role hrole =>
      split at h
      next => cases h
      next readOnly hread =>
        cases h
        exact ⟨rfl, rfl, .inr ⟨qualified, annot, hfound, hrole, hread⟩⟩

/-- Dropping elements makes bindings read-only and changes nothing else about them. -/
theorem ofParam_cleaned {scope : TypeScope} {param : Param} {binding : Binding}
    (h : ofParam scope param = .ok binding) (writes : List Binding) :
    ∃ binding', ofParam scope (cleaned writes param) = .ok binding' ∧
      binding'.role = binding.role ∧
      (binding'.readOnly = true ∨ (binding'.readOnly = binding.readOnly ∧ binding ∉ writes)) := by
  have hclean := cleaned_annotations writes param
  have hfind := @findRole?_of_names scope 0 _ _ (hclean.imp fun _ _ h => h.name)
  obtain ⟨hparam, -, ⟨hnone, hrole, -⟩ | ⟨qualified, annot, hfound, hrole, hread⟩⟩ :=
    ofParam_eq_ok h
  · rw [hnone] at hfind
    refine ⟨_, by rw [ofParam, hfind], ?_, .inl rfl⟩
    exact hrole.symm
  · obtain ⟨-, hget, -⟩ := findRole?_eq_some hfound
    obtain ⟨hlt, hannot⟩ := List.getElem?_eq_some_iff.1 hget
    obtain ⟨hlength, hall⟩ := List.forall₂_iff_get.1 hclean
    have hlt' : binding.annotIndex - 0 < (cleaned writes param).annotations.length := hlength ▸ hlt
    have hcleaned := hall _ hlt hlt'
    simp only [List.get_eq_getElem, hannot] at hcleaned
    have hget' := List.getElem?_eq_getElem hlt'
    rw [hfound] at hfind
    simp only [hget', Option.map_some] at hfind
    have hrole' := (roleOf_cleaned hcleaned qualified).trans hrole
    by_cases hmem : binding ∈ writes
    · have hnone := cleaned_readOnly hmem hparam hget'
      exact ⟨_, ofParam_of_findRole? hfind hrole' (readOnlyOf_of_none hnone _), rfl, .inl rfl⟩
    · rcases readOnlyOf_cleaned hcleaned hread with hread' | hread'
      · exact ⟨_, ofParam_of_findRole? hfind hrole' hread', rfl, .inr ⟨rfl, hmem⟩⟩
      · exact ⟨_, ofParam_of_findRole? hfind hrole' hread', rfl, .inl rfl⟩

/-- What a parameter is bound to after a migration. -/
theorem ofParam_migrated {added : List String} {scope scope' : TypeScope}
    (h : Migrated added scope scope') {param : Param} {binding : Binding}
    (hbinding : ofParam scope param = .ok binding) (writes : List Binding) :
    ∃ binding', ofParam scope' (cleaned writes param) = .ok binding' ∧
      Rebound added writes binding binding' := by
  obtain ⟨binding', hbinding', hrole, hread⟩ := ofParam_cleaned hbinding writes
  rcases findRole?_migrated h 0 (cleaned writes param).annotations with
    heq | ⟨hadded, index, annot, hfind⟩
  · refine ⟨binding', ?_, .inl hrole, hread⟩
    rw [← hbinding', ofParam, ofParam, heq]
  · exact ⟨_, ofParam_of_findRole? hfind rfl rfl, .inr ⟨hadded, rfl⟩, .inl rfl⟩

end Binding

end AdviceMigration.Advice
