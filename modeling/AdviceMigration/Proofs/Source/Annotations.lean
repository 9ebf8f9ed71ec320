import AdviceMigration.Source.Annot
import Mathlib.Data.List.InsertIdx

/-!
# The annotations written in an annotation

An annotation can hold others in its values. Their names are listed in the order in which they are written, those of a method with those of its parameters.
-/

namespace AdviceMigration.Source

/-! ### Names -/

mutual
/-- The names of an annotation and of the annotations in its values. -/
def Annot.names : Annot → List String
  | .marker name => [name]
  | .single name value => name :: value.annotNames
  | .pairs name named => name :: ElementPair.annotNames named

/-- The names of the annotations in named values. -/
def ElementPair.annotNames : List ElementPair → List String
  | [] => []
  | ⟨_, value⟩ :: rest => value.annotNames ++ ElementPair.annotNames rest

/-- The names of the annotations in a value. -/
def ElementValue.annotNames : ElementValue → List String
  | .expr _ => []
  | .annot value => value.names
  | .array values => ElementValue.listNames values

/-- The names of the annotations in values. -/
def ElementValue.listNames : List ElementValue → List String
  | [] => []
  | value :: rest => value.annotNames ++ ElementValue.listNames rest
end

/-- The names of annotations and of those in their values. -/
def Annot.listNames (annots : List Annot) : List String := annots.flatMap Annot.names

/-- The names of the annotations of a method and of its parameters. -/
def Method.annotNames (method : Method) : List String :=
  Annot.listNames method.annotations ++
    method.params.flatMap fun param => Annot.listNames param.annotations

theorem ElementPair.annotNames_eq (named : List ElementPair) :
    ElementPair.annotNames named = named.flatMap fun pair => pair.value.annotNames := by
  induction named with
  | nil => rfl
  | cons pair rest ih =>
    obtain ⟨name, value⟩ := pair
    rw [ElementPair.annotNames, ih, List.flatMap_cons]

theorem ElementValue.listNames_eq (values : List ElementValue) :
    ElementValue.listNames values = values.flatMap ElementValue.annotNames := by
  induction values with
  | nil => rfl
  | cons value rest ih => rw [ElementValue.listNames, ih, List.flatMap_cons]

namespace Annot

@[simp] theorem names_marker (name : String) : (marker name).names = [name] := rfl

@[simp] theorem names_single (name : String) (value : ElementValue) :
    (single name value).names = name :: value.annotNames := rfl

theorem names_pairs (name : String) (named : List ElementPair) :
    (pairs name named).names = name :: named.flatMap fun pair => pair.value.annotNames := by
  rw [names, ElementPair.annotNames_eq]

/-! ### Elements -/

theorem annotNames_subset_of_element? {annot : Annot} {name : String} {value : ElementValue}
    (h : annot.element? name = some value) : value.annotNames ⊆ annot.names := by
  cases annot with
  | marker own => cases h
  | single own value' =>
    rw [element?] at h
    split at h
    · cases h
      exact List.subset_cons_self _ _
    · cases h
  | pairs own named =>
    obtain ⟨pair, hfind, rfl⟩ := Option.map_eq_some_iff.1 h
    rw [names_pairs]
    exact fun written hwritten => List.mem_cons_of_mem _
      (List.mem_flatMap.2 ⟨pair, List.mem_of_find?_eq_some hfind, hwritten⟩)

theorem names_ofPairs (name : String) (named : List ElementPair) :
    (ofPairs name named).names = name :: named.flatMap fun pair => pair.value.annotNames := by
  unfold ofPairs
  split
  · rfl
  · split
    · rw [names_single, List.flatMap_singleton]
    · rw [names_pairs]
  · rw [names_pairs]

/-- Removing an element removes names only. -/
theorem names_without_subset (annot : Annot) (name : String) :
    (annot.without name).names ⊆ annot.names := by
  cases annot with
  | marker own => exact List.Subset.refl _
  | single own value =>
    rw [without, without?]
    split
    · exact List.cons_subset_cons _ (List.nil_subset _)
    · exact List.Subset.refl _
  | pairs own named =>
    rw [without, without?]
    split
    · rw [Option.getD_some, names_ofPairs, names_pairs]
      refine List.cons_subset_cons _ fun written hwritten => ?_
      obtain ⟨pair, hpair, hwritten⟩ := List.mem_flatMap.1 hwritten
      exact List.mem_flatMap.2 ⟨pair, (List.mem_filter.1 hpair).1, hwritten⟩
    · exact List.Subset.refl _

/-! ### Lists of annotations -/

theorem mem_listNames {annots : List Annot} {name : String} :
    name ∈ listNames annots ↔ ∃ annot ∈ annots, name ∈ annot.names := List.mem_flatMap

theorem listNames_insertIdx_subset (annots : List Annot) (index : Nat) (annot : Annot) :
    listNames (annots.insertIdx index annot) ⊆ listNames annots ++ annot.names := by
  intro name hname
  obtain ⟨other, hother, hown⟩ := mem_listNames.1 hname
  rcases List.eq_or_mem_of_mem_insertIdx hother with rfl | hother
  · exact List.mem_append_right _ hown
  · exact List.mem_append_left _ (mem_listNames.2 ⟨other, hother, hown⟩)

theorem listNames_modify_subset {change : Annot → Annot} {extra : List String}
    (hchange : ∀ annot, (change annot).names ⊆ annot.names ++ extra) (annots : List Annot)
    (index : Nat) : listNames (annots.modify index change) ⊆ listNames annots ++ extra := by
  intro name hname
  obtain ⟨other, hother, hname⟩ := mem_listNames.1 hname
  obtain ⟨position, hlt, rfl⟩ := List.mem_iff_getElem.1 hother
  rw [List.length_modify] at hlt
  have hmem : annots[position] ∈ annots := List.getElem_mem hlt
  rw [List.getElem_modify] at hname
  split at hname
  · rcases List.mem_append.1 (hchange _ hname) with hold | hextra
    · exact List.mem_append_left _ (mem_listNames.2 ⟨_, hmem, hold⟩)
    · exact List.mem_append_right _ hextra
  · exact List.mem_append_left _ (mem_listNames.2 ⟨_, hmem, hname⟩)

end Annot

end AdviceMigration.Source
