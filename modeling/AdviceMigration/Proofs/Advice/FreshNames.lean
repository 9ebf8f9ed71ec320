import AdviceMigration.Advice.FreshName
import AdviceMigration.Proofs.Advice.Renaming
import Mathlib.Data.List.Perm.Subperm

/-!
# Fresh names

A fresh name is none of the names that are taken: the base and the numbered names are one more than the names taken, so one of them is free. A method takes the names of the parameters that stay and each name that occurs in its body, unless a parameter that goes has it.
-/

namespace AdviceMigration.Advice

open AdviceMigration.Source AdviceMigration.Scope

namespace TakenNames

theorem numbered_injective {base : String} {number other : Nat}
    (h : base ++ toString number = base ++ toString other) : number = other := by
  have hdigits : (toString number).toList = (toString other).toList :=
    congrArg String.toList ((String.append_right_inj base).1 h)
  rw [Nat.toString_eq_repr, Nat.toString_eq_repr, Nat.toList_repr, Nat.toList_repr] at hdigits
  rw [← @Nat.ofDigitChars_toDigits 10 number (by decide) (by decide), hdigits,
    Nat.ofDigitChars_toDigits (by decide) (by decide)]

theorem numbered_ne (base : String) (number : Nat) : base ++ toString number ≠ base := by
  rw [Ne, String.append_eq_left_iff, Nat.toString_eq_repr]
  exact Nat.repr_ne_empty

/-- Names seen so far are taken, and together with the names still to be tried there is one more than names are taken. -/
theorem firstFree_not_mem {taken : TakenNames} {base : String} (steps : Nat) {number : Nat}
    {seen : List String} (hnodup : seen.Nodup) (htaken : seen ⊆ taken)
    (hcount : seen.length + steps = taken.length + 1)
    (hahead : ∀ later ≥ number, base ++ toString later ∉ seen) :
    firstFree taken base steps number ∉ taken := by
  induction steps generalizing number seen with
  | zero =>
    have hle := (List.subperm_of_subset hnodup htaken).length_le
    omega
  | succ steps ih =>
    rw [firstFree]
    split
    next hmem =>
      refine @ih (number + 1) ((base ++ toString number) :: seen)
        (List.nodup_cons.2 ⟨hahead number (Nat.le_refl _), hnodup⟩)
        (List.cons_subset.2 ⟨List.contains_iff_mem.1 hmem, htaken⟩) ?_ ?_
      · rw [List.length_cons]
        omega
      · intro later hlater hseen
        rcases List.mem_cons.1 hseen with heq | hseen
        · exact absurd (numbered_injective heq) (by omega)
        · exact hahead later (by omega) hseen
    next hnot => exact fun hmem => hnot (List.contains_iff_mem.2 hmem)

/-- A fresh name is not taken. -/
theorem freshName_not_mem (taken : TakenNames) (base : String) : taken.freshName base ∉ taken := by
  rw [freshName]
  split
  next hmem =>
    refine @firstFree_not_mem _ _ _ _ [base] (List.nodup_singleton base)
      (List.cons_subset.2 ⟨List.contains_iff_mem.1 hmem, List.nil_subset _⟩)
      (Nat.add_comm 1 _) ?_
    intro later _ hseen
    exact numbered_ne base later (List.mem_singleton.1 hseen)
  next hnot => exact fun hmem => hnot (List.contains_iff_mem.2 hmem)

/-- The names of the parameters that stay are taken. -/
theorem mem_ofMethod_of_kept {method : Method} {removed : List NodeId} {param : Param}
    (hparam : param ∈ method.params) (hkept : param.id ∉ removed) :
    param.name ∈ ofMethod method removed := by
  rw [ofMethod, List.partition_eq_filter_filter]
  exact List.mem_append_right _ (List.mem_map_of_mem (List.mem_filter.2 ⟨hparam, by simpa using hkept⟩))

/-- A name that occurs is taken, or that of a parameter that goes. -/
theorem mem_ofMethod_of_use {method : Method} {removed : List NodeId} {role : Role} {name : String}
    {id : NodeId} (huse : .use role name id ∈ Block.eventsOption method.body) :
    name ∈ ofMethod method removed ∨
      ∃ param ∈ method.params, param.id ∈ removed ∧ param.name = name := by
  by_cases hgone : ∃ param ∈ method.params, param.id ∈ removed ∧ param.name = name
  · exact .inr hgone
  · rw [ofMethod, List.partition_eq_filter_filter]
    refine .inl (List.mem_append_left _ (List.mem_filter.2 ⟨?_, ?_⟩))
    · exact List.mem_filterMap.2 ⟨_, huse, rfl⟩
    · simpa using fun param hparam hid hname => hgone ⟨param, hparam, hid, hname⟩

end TakenNames

end AdviceMigration.Advice
