import AdviceMigration.Proofs.Advice.FreshNames
import Mathlib.Order.Interval.Finset.Nat
import Mathlib.Order.Bounds.Defs

/-!
# The search for a fresh name

The search tries the base, then the base with the numbers from 2 on, until a candidate is free. Nothing in it bounds the numbers. It ends because the candidates of one base are pairwise distinct, so that finitely many names cannot take all of them; the number that it ends with is at most one more than the names that are taken.

Candidates of different bases can be the same name: `x` with 12 is `x1` with 2. A name is therefore taken from the moment it is handed out, which keeps the names of a whole sequence of calls apart.
-/

namespace AdviceMigration.Advice

namespace TakenNames

variable {taken : TakenNames} {base candidate result : String} {number : Nat}

/-- The search for a fresh name. `candidate` is tried next, the base with the numbers from `number` on after it, and `result` is the candidate with which the search ends. -/
inductive Finds (taken : TakenNames) (base : String) : (candidate : String) → (number : Nat) →
    (result : String) → Prop where
  | free {candidate : String} {number : Nat} (h : candidate ∉ taken) :
    Finds taken base candidate number candidate
  | next {candidate : String} {number : Nat} {result : String} (h : candidate ∈ taken)
      (hrest : Finds taken base (base ++ toString number) (number + 1) result) :
    Finds taken base candidate number result

/-- The search has one result. -/
theorem Finds.eq {result' : String} (h : Finds taken base candidate number result)
    (h' : Finds taken base candidate number result') : result = result' := by
  induction h with
  | free hfree =>
    cases h' with
    | free => rfl
    | next htaken => exact absurd htaken hfree
  | next htaken _ ih =>
    cases h' with
    | free hfree => exact absurd htaken hfree
    | next _ hrest => exact ih hrest

/-- A free candidate is found if all candidates in front of it are taken. -/
theorem finds_of_taken {steps : Nat} (hfree : base ++ toString (number + steps) ∉ taken)
    (htaken : ∀ smaller, number ≤ smaller → smaller < number + steps →
      base ++ toString smaller ∈ taken) :
    Finds taken base (base ++ toString number) (number + 1) (base ++ toString (number + steps)) := by
  induction steps generalizing number with
  | zero => exact .free hfree
  | succ steps ih =>
    have hshift : number + (steps + 1) = number + 1 + steps := by omega
    rw [hshift] at hfree htaken ⊢
    refine .next (htaken number (Nat.le_refl _) (by omega)) (ih hfree ?_)
    intro smaller hle hlt
    exact htaken smaller (by omega) hlt

/-- Candidates are passed over only if they are taken. -/
theorem exists_firstFree (taken : TakenNames) (base : String) (steps number : Nat) :
    ∃ later, number ≤ later ∧ taken.firstFree base steps number = base ++ toString later ∧
      ∀ smaller, number ≤ smaller → smaller < later → base ++ toString smaller ∈ taken := by
  induction steps generalizing number with
  | zero =>
    refine ⟨number, Nat.le_refl _, rfl, ?_⟩
    intro smaller hle hlt
    omega
  | succ steps ih =>
    rw [firstFree]
    split
    next hmem =>
      obtain ⟨later, hle, hfirst, hpassed⟩ := ih (number + 1)
      refine ⟨later, by omega, hfirst, ?_⟩
      intro smaller hsmaller hlt
      by_cases heq : smaller = number
      · subst heq
        exact List.contains_iff_mem.1 hmem
      · exact hpassed smaller (by omega) hlt
    next =>
      refine ⟨number, Nat.le_refl _, rfl, ?_⟩
      intro smaller hle hlt
      omega

/-- The name of a base that is taken has the least number from 2 on that is free. -/
theorem exists_freshName (h : base ∈ taken) :
    ∃ number, IsLeast {k | 2 ≤ k ∧ base ++ toString k ∉ taken} number ∧
      taken.freshName base = base ++ toString number := by
  obtain ⟨number, hle, hfirst, hpassed⟩ := exists_firstFree taken base taken.length 2
  have hname : taken.freshName base = base ++ toString number := by
    rw [freshName, if_pos (List.contains_iff_mem.2 h), hfirst]
  refine ⟨number, ⟨⟨hle, hname ▸ freshName_not_mem taken base⟩, ?_⟩, hname⟩
  rintro smaller ⟨hsmaller, hfree⟩
  by_contra hlt
  exact hfree (hpassed smaller hsmaller (by omega))

theorem freshName_of_free (h : base ∉ taken) : taken.freshName base = base :=
  if_neg fun hmem => h (List.contains_iff_mem.1 hmem)

/-- The base and the numbered candidates in front of the one that is found are as many taken names. -/
theorem number_le (hbase : base ∈ taken)
    (htaken : ∀ smaller, 2 ≤ smaller → smaller < number → base ++ toString smaller ∈ taken) :
    number ≤ taken.toFinset.card + 1 := by
  have hsubset : insert base ((Finset.Ico 2 number).image fun k => base ++ toString k) ⊆
      taken.toFinset := by
    intro name hname
    rw [List.mem_toFinset]
    rcases Finset.mem_insert.1 hname with rfl | hname
    · exact hbase
    · obtain ⟨smaller, hsmaller, rfl⟩ := Finset.mem_image.1 hname
      obtain ⟨hle, hlt⟩ := Finset.mem_Ico.1 hsmaller
      exact htaken smaller hle hlt
  have hfresh : base ∉ (Finset.Ico 2 number).image fun k => base ++ toString k := by
    intro hmem
    obtain ⟨smaller, -, heq⟩ := Finset.mem_image.1 hmem
    exact numbered_ne base smaller heq
  have hcard : ((Finset.Ico 2 number).image fun k => base ++ toString k).card = number - 2 := by
    rw [Finset.card_image_of_injective _ fun _ _ => numbered_injective, Nat.card_Ico]
  have hle := Finset.card_le_card hsubset
  rw [Finset.card_insert_of_notMem hfresh, hcard] at hle
  omega

/-- The search ends with the fresh name. -/
theorem finds_freshName (taken : TakenNames) (base : String) :
    Finds taken base base 2 (taken.freshName base) := by
  by_cases hbase : base ∈ taken
  · obtain ⟨number, ⟨⟨hle, hfree⟩, hleast⟩, hname⟩ := exists_freshName hbase
    obtain ⟨steps, rfl⟩ := Nat.exists_eq_add_of_le hle
    rw [hname]
    refine .next hbase (finds_of_taken hfree ?_)
    intro smaller hsmaller hlt
    by_contra hnot
    have := hleast ⟨hsmaller, hnot⟩
    omega
  · rw [freshName_of_free hbase]
    exact .free hbase

/-! ### One call after the other -/

/-- The names that calls with the given bases answer one after the other. -/
def freshNames (taken : TakenNames) : (bases : List String) → List String
  | [] => []
  | base :: bases => (taken.fresh base).1 :: freshNames (taken.fresh base).2 bases

/-- Only the fresh name becomes taken. -/
theorem mem_fresh {name : String} :
    name ∈ (taken.fresh base).2 ↔ name = (taken.fresh base).1 ∨ name ∈ taken := List.mem_cons

/-- What is taken before the first call is never handed out. -/
theorem not_mem_freshNames {name : String} (h : name ∈ taken) (bases : List String) :
    name ∉ taken.freshNames bases := by
  induction bases generalizing taken with
  | nil => exact List.not_mem_nil
  | cons base bases ih =>
    intro hmem
    rcases List.mem_cons.1 hmem with rfl | hmem
    · exact freshName_not_mem taken base h
    · exact ih (mem_fresh.2 (.inr h)) hmem

/-- No name is handed out twice. -/
theorem nodup_freshNames (taken : TakenNames) (bases : List String) :
    (taken.freshNames bases).Nodup := by
  induction bases generalizing taken with
  | nil => exact List.nodup_nil
  | cons base bases ih =>
    exact List.nodup_cons.2 ⟨not_mem_freshNames (mem_fresh.2 (.inl rfl)) bases, ih _⟩

/-- The search for a fresh name ends, with the base if it is free and with the base and the least free number from 2 on otherwise. The name was free and is taken afterwards, nothing else changes, and no two calls of a sequence answer the same name. -/
theorem fresh_eq_least (taken : TakenNames) (base : String) :
    (∀ result, Finds taken base base 2 result ↔ result = (taken.fresh base).1) ∧
      (base ∉ taken → (taken.fresh base).1 = base) ∧
      (base ∈ taken → ∃ number, IsLeast {k | 2 ≤ k ∧ base ++ toString k ∉ taken} number ∧
        number ≤ taken.toFinset.card + 1 ∧ (taken.fresh base).1 = base ++ toString number) ∧
      (taken.fresh base).1 ∉ taken ∧
      (∀ name, name ∈ (taken.fresh base).2 ↔ name = (taken.fresh base).1 ∨ name ∈ taken) ∧
      ∀ bases, (taken.freshNames bases).Nodup := by
  have hfinds := finds_freshName taken base
  refine ⟨fun result => ⟨fun h => h.eq hfinds, fun h => h ▸ hfinds⟩, freshName_of_free, ?_,
    freshName_not_mem taken base, fun name => mem_fresh, nodup_freshNames taken⟩
  intro hbase
  obtain ⟨number, hleast, hname⟩ := exists_freshName hbase
  refine ⟨number, hleast, number_le hbase ?_, hname⟩
  intro smaller hsmaller hlt
  by_contra hfree
  have := hleast.2 ⟨hsmaller, hfree⟩
  omega

/-- Candidates of two bases meet, and the later call passes over what the earlier one took. -/
example : freshNames ["x1", "x", "x2"] ["x1", "x", "x"] = ["x12", "x3", "x4"] := by decide

end TakenNames

end AdviceMigration.Advice
