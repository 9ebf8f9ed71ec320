import AdviceMigration.Advice.Locals
import AdviceMigration.Proofs.Scope.Types

/-!
# Framework names in a migrated unit

A migration adds imports of a few framework types and nests container classes. None of this changes which written names stand for the markers and for the annotations that bind parameters, except that a bare `Enter` may come to stand for its annotation.
-/

namespace AdviceMigration.Advice

open AdviceMigration.Source AdviceMigration.Scope AdviceMigration.Scope.TypeScope

namespace Framework

/-- The imports that a migration adds. -/
def addedImports : List String := [assignReturned, toArgument, toField, enterValue]

/-- The names that a migration looks for. -/
def readNames : List String := onMethodEnter :: onMethodExit :: Binding.roleNames

/-- The names of the annotations that a migration puts on methods. -/
def emittedNames : List String := [toArgumentsWrapper, toFieldsWrapper, toReturnedName]

/-! ### Checks on literals

A literal is by definition the text of its characters. The lists of names are checked on these, so that no text is decoded for it. -/

theorem map_toList_cons {chars : List Char} {names : List String} {rest : List (List Char)}
    (h : names.map String.toList = rest) :
    (String.ofList chars :: names).map String.toList = chars :: rest := by
  rw [List.map_cons, String.toList_ofList, h]

theorem forall_mem_of_map_toList {p : String → Prop} {names : List String}
    {rest : List (List Char)} (h : names.map String.toList = rest)
    (hrest : ∀ chars ∈ rest, p (String.ofList chars)) : ∀ name ∈ names, p name := by
  intro name hname
  have hchars := hrest name.toList (h ▸ List.mem_map_of_mem hname)
  rwa [String.ofList_toList] at hchars

theorem recognized_addedImports : Recognized index addedImports := by
  have hpaths : ∀ path ∈ addedImports, looksLikePackage (lastSegment path) = false ∧
      ∀ qualified ∈ knownTypes, lastSegment qualified = lastSegment path → qualified = path := by
    apply forall_mem_of_map_toList
    · repeat apply map_toList_cons
      exact List.map_nil
    intro chars hchars
    constructor
    · simp only [looksLikePackage, lastSegment, String.toList_ofList]
      revert chars
      decide +kernel
    · apply forall_mem_of_map_toList
      · repeat apply map_toList_cons
        exact List.map_nil
      simp only [lastSegment, String.toList_ofList, String.ofList_inj]
      revert chars
      decide +kernel
  intro path hpath
  refine ⟨(hpaths path hpath).1, fun qualified hindex => ?_⟩
  exact (hpaths path hpath).2 qualified (by simpa [index] using hindex)

theorem not_infix_readNames : ∀ name ∈ readNames,
    ¬ containerClass.toList <:+: name.toList := by
  have hclass : containerClass.toList = _ := String.toList_ofList
  apply forall_mem_of_map_toList
  · repeat apply map_toList_cons
    exact List.map_nil
  simp only [hclass, String.toList_ofList]
  decide +kernel

theorem not_prefix_readNames : ∀ path ∈ addedImports, ∀ name ∈ readNames,
    path.toList <+: name.toList → path = enterValue ∧ name = enterValue := by
  have henter : enterValue.toList = _ := String.toList_ofList
  apply forall_mem_of_map_toList
  · repeat apply map_toList_cons
    exact List.map_nil
  intro chars hchars
  apply forall_mem_of_map_toList
  · repeat apply map_toList_cons
    exact List.map_nil
  simp only [← String.toList_inj, henter, String.toList_ofList]
  revert chars
  decide +kernel

theorem lastSegment_emittedNames : ∀ written ∈ emittedNames, ∀ name ∈ readNames,
    lastSegment written ≠ lastSegment name := by
  apply forall_mem_of_map_toList
  · repeat apply map_toList_cons
    exact List.map_nil
  intro chars hchars
  apply forall_mem_of_map_toList
  · repeat apply map_toList_cons
    exact List.map_nil
  simp only [lastSegment, String.toList_ofList, ne_eq, String.ofList_inj]
  revert chars
  decide +kernel

theorem allBlank_addedImports : ∀ path ∈ addedImports, Text.allBlank path = false := by
  apply forall_mem_of_map_toList
  · repeat apply map_toList_cons
    exact List.map_nil
  simp only [Text.allBlank, String.toList_ofList]
  decide +kernel

end Framework

/-- Whether a scope is what another one becomes by a migration that adds the given imports. -/
structure Migrated (added : List String) (scope scope' : TypeScope) : Prop where
  wellFormed : scope.WellFormed
  wellFormed' : scope'.WellFormed
  index : scope.index = Framework.index
  imports : ∀ path ∈ added, path ∈ Framework.addedImports
  grows : Grows added containerClass scope scope'

namespace Migrated

open Framework

variable {added : List String} {scope scope' : TypeScope} (h : Migrated added scope scope')

/-- A name that starts with the container class stands for nothing that a migration looks for. -/
theorem headSegment_ne_of_resolve? (hwf : scope.WellFormed) {written name : String}
    (hname : name ∈ readNames) (hresolve : scope.resolve? written = some name) :
    headSegment written ≠ containerClass := by
  intro hhead
  refine not_infix_readNames name hname ?_
  have hprefix : containerClass.toList <+: written.toList := by
    rw [← hhead, headSegment, String.toList_ofList]
    exact List.takeWhile_prefix _
  exact hprefix.isInfix.trans (endsWith_resolve? hwf hresolve).suffix.isInfix

include h in
theorem recognized : Recognized scope.index added := by
  rw [h.index]
  exact fun path hpath => recognized_addedImports path (h.imports path hpath)

include h in
/-- A name keeps standing for what a migration looks for. -/
theorem resolve?_of_some {written name : String} (hname : name ∈ readNames)
    (hresolve : scope.resolve? written = some name) : scope'.resolve? written = some name := by
  have hhead := headSegment_ne_of_resolve? h.wellFormed hname hresolve
  rcases h.grows.resolve?_cases h.wellFormed h.recognized hhead with heq | ⟨hnone, -⟩
  · rw [heq, hresolve]
  · rw [hnone] at hresolve
    cases hresolve

include h in
/-- No other name comes to stand for what a migration looks for, except through an import of `Enter`. -/
theorem some_of_resolve? {written name : String} (hname : name ∈ readNames)
    (hresolve : scope'.resolve? written = some name) :
    scope.resolve? written = some name ∨ (enterValue ∈ added ∧ name = enterValue) := by
  have hhead := headSegment_ne_of_resolve? h.wellFormed' hname hresolve
  rcases h.grows.resolve?_cases h.wellFormed h.recognized hhead with heq | ⟨-, path, hpath, hsome⟩
  · exact .inl (heq ▸ hresolve)
  · rw [hresolve, Option.some_inj] at hsome
    have hprefix : path.toList <+: name.toList := by
      rw [hsome, String.toList_append]
      exact List.prefix_append _ _
    obtain ⟨rfl, rfl⟩ := not_prefix_readNames path (h.imports path hpath) name hname hprefix
    exact .inr ⟨hpath, rfl⟩

include h in
theorem resolve?_marker_iff {written marker : String}
    (hmarker : marker = onMethodEnter ∨ marker = onMethodExit) :
    scope'.resolve? written = some marker ↔ scope.resolve? written = some marker := by
  have hname : marker ∈ readNames := by
    rcases hmarker with rfl | rfl <;> decide
  have hne : marker ≠ enterValue := by
    rcases hmarker with rfl | rfl <;> decide
  refine ⟨fun hresolve => ?_, h.resolve?_of_some hname⟩
  exact (h.some_of_resolve? hname hresolve).resolve_right fun hand => hne hand.2

include h in
/-- An annotation that says where values go keeps doing so, unless it is named like the container class. -/
theorem resolve?_assignReturned {written qualified : String}
    (hresolve : scope.resolve? written = some qualified)
    (hhead : headSegment written ≠ containerClass) : scope'.resolve? written = some qualified := by
  rcases h.grows.resolve?_cases h.wellFormed h.recognized hhead with heq | ⟨hnone, -⟩
  · rw [heq, hresolve]
  · rw [hnone] at hresolve
    cases hresolve

end Migrated

end AdviceMigration.Advice
