import AdviceMigration.Proofs.Advice.Folding
import AdviceMigration.Proofs.Advice.Heads
import AdviceMigration.Proofs.Advice.PackedBody

/-!
# Annotations and slots agree

A value that a method gives back has a place in what is returned, and an annotation that says where it goes. The annotations come from one pass over the values, the items of the returned array from another, and folding then changes the items. All three keep to the positions of the values: the annotation for a value names its position, and every `return` has the value there.
-/

namespace AdviceMigration.Advice

open AdviceMigration.Source

/-! ### What is asked for -/

namespace WriteTarget

/-- The name of the annotation for a target. -/
def annotName : WriteTarget → String
  | argument _ => Framework.toArgumentName
  | field _ => Framework.toFieldName
  | returned => Framework.toReturnedName

@[simp] theorem name_annot (target : WriteTarget) (slot : Option Nat) :
    (target.annot slot).name = target.annotName := by
  cases target <;> cases slot <;> rfl

/-- A wrapper holds annotations of one kind. -/
theorem annotName_eq_of_wrapper? {target target' : WriteTarget}
    (h : target.wrapper? = target'.wrapper?) : target.annotName = target'.annotName := by
  have hne : some Framework.toArgumentsWrapper ≠ some Framework.toFieldsWrapper := by decide
  cases target <;> cases target'
  case argument.field => exact absurd h hne
  case field.argument => exact absurd h.symm hne
  all_goals first | rfl | cases h

theorem wrapper?_ne_toReturnedName (target : WriteTarget) :
    target.wrapper? ≠ some Framework.toReturnedName := by
  cases target with
  | argument _ =>
    change some Framework.toArgumentsWrapper ≠ _
    decide
  | field _ =>
    change some Framework.toFieldsWrapper ≠ _
    decide
  | returned => exact nofun

end WriteTarget

/-- The annotations that an emitted annotation stands for: those of one kind in their wrapper, or itself. -/
inductive Collects : Annot → List Annot → Prop where
  | wrapper {target : WriteTarget} {name : String} {items : List Annot}
      (hname : target.wrapper? = some name) (hitems : ∀ item ∈ items, item.name = target.annotName) :
    Collects (.single name (.array (items.map .annot))) items
  | alone {annot : Annot} (hname : annot.name = Framework.toReturnedName) : Collects annot [annot]

/-- Another item for a wrapper of its kind. -/
theorem Collects.appendItem {target : WriteTarget} {annot item : Annot} {items : List Annot}
    (h : Collects annot items) (hannot : target.wrapper? = some annot.name)
    (hitem : item.name = target.annotName) :
    Collects (appendItem item annot) (items ++ [item]) := by
  cases h with
  | @wrapper target' name items hname hitems =>
    have hsame := WriteTarget.annotName_eq_of_wrapper? (hname.trans hannot.symm)
    have hcollects : Collects (.single name (.array ((items ++ [item]).map .annot)))
        (items ++ [item]) := by
      refine .wrapper hname fun other hother => ?_
      rcases List.mem_append.1 hother with hother | hother
      · exact hitems other hother
      · rw [List.mem_singleton.1 hother, hitem, hsame]
    rwa [List.map_append, List.map_singleton] at hcollects
  | alone hname =>
    rw [hname] at hannot
    exact absurd hannot target.wrapper?_ne_toReturnedName

/-- The targets of values, each with the position of its value. -/
def targets (values : List (ValueToReturn × Nat)) : List (WriteTarget × Nat) :=
  values.filterMap fun (value, slot) => value.target.map fun target => (target, slot)

/-- Whether an annotation is neither of the wrappers. -/
def NoWrapper (annot : Annot) : Prop :=
  annot.name ≠ Framework.toArgumentsWrapper ∧ annot.name ≠ Framework.toFieldsWrapper

theorem findIdx?_wrapper_eq_none {annots : List Annot} (h : ∀ annot ∈ annots, NoWrapper annot)
    {target : WriteTarget} {wrapper : String} (hwrapper : target.wrapper? = some wrapper) :
    annots.findIdx? (fun annot => annot.name == wrapper) = none := by
  rw [List.findIdx?_eq_none_iff]
  intro annot hannot
  refine beq_eq_false_iff_ne.2 ?_
  obtain ⟨harguments, hfields⟩ := h annot hannot
  cases target <;> cases hwrapper
  · exact harguments
  · exact hfields

/-- Annotations around the place where others have been emitted so far. -/
def EmittedSoFar (front back asked : List Annot) (state : Annotating) : Prop :=
  ∃ emitted groups, state.annots = front ++ emitted ++ back ∧
    state.marker = (front ++ emitted).length ∧ List.Forall₂ Collects emitted groups ∧
    groups.flatten.Perm asked

namespace EmittedSoFar

variable {front back asked : List Annot} {state : Annotating}

theorem insert (h : EmittedSoFar front back asked state) {annot item : Annot}
    (hcollects : Collects annot [item]) :
    EmittedSoFar front back (asked ++ [item]) (state.insert annot) := by
  obtain ⟨emitted, groups, hannots, hmarker, hgroups, hperm⟩ := h
  refine ⟨emitted ++ [annot], groups ++ [[item]], ?_, ?_, ?_, ?_⟩
  · rw [Annotating.insert, hannots, hmarker]
    dsimp only
    rw [insertIdx_split]
    simp
  · rw [Annotating.insert, hmarker]
    simp [Nat.add_assoc]
  · exact List.rel_append hgroups (.cons hcollects .nil)
  · rw [List.flatten_append, List.flatten_singleton]
    exact hperm.append_right [item]

/-- An item goes into the wrapper that has been emitted for its kind, or into a new one. -/
theorem insertItem (h : EmittedSoFar front back asked state)
    (hfront : ∀ annot ∈ front, NoWrapper annot) (hback : ∀ annot ∈ back, NoWrapper annot)
    {target : WriteTarget} {wrapper : String} (hwrapper : target.wrapper? = some wrapper)
    {item : Annot} (hitem : item.name = target.annotName) :
    EmittedSoFar front back (asked ++ [item]) (state.insertItem wrapper item) := by
  rw [Annotating.insertItem]
  split
  next index hindex =>
    obtain ⟨emitted, groups, hannots, hmarker, hgroups, hperm⟩ := h
    -- Nothing around the emitted annotations is a wrapper, so the one found is among them.
    rw [hannots, List.findIdx?_append, List.findIdx?_append,
      findIdx?_wrapper_eq_none hfront hwrapper, findIdx?_wrapper_eq_none hback hwrapper,
      Option.map_none, Option.or_none, Option.none_or] at hindex
    obtain ⟨position, hposition, rfl⟩ := Option.map_eq_some_iff.1 hindex
    obtain ⟨annot, hannot, hname⟩ := getElem?_of_findIdx? hposition
    obtain ⟨before, after, rfl, rfl⟩ := Focus.exists_split_of_getElem? hannot
    obtain ⟨groupsBefore, items, groupsAfter, rfl, hbefore, hcollects, hafter⟩ :=
      forall₂_split hgroups
    refine ⟨before ++ appendItem item annot :: after,
      groupsBefore ++ (items ++ [item]) :: groupsAfter, ?_, ?_, ?_, ?_⟩
    · have hsplit := Focus.modify_split (front ++ before) (after ++ back) annot (appendItem item)
      rw [List.length_append, Nat.add_comm] at hsplit
      simpa [hannots] using hsplit
    · simpa using hmarker
    · have hown := hcollects.appendItem (by rwa [eq_of_beq hname]) hitem
      exact List.rel_append hbefore (.cons hown hafter)
    · have hmiddle : (groupsBefore ++ (items ++ [item]) :: groupsAfter).flatten.Perm
          ((groupsBefore ++ items :: groupsAfter).flatten ++ [item]) := by
        simp only [List.flatten_append, List.flatten_cons, List.append_assoc]
        exact (List.perm_append_comm.append_left items).append_left _
      exact hmiddle.trans (hperm.append_right [item])
  next => exact h.insert (@Collects.wrapper target wrapper [item] hwrapper (by simpa using hitem))

theorem add (h : EmittedSoFar front back asked state)
    (hfront : ∀ annot ∈ front, NoWrapper annot) (hback : ∀ annot ∈ back, NoWrapper annot)
    (target : WriteTarget) (slot : Option Nat) :
    EmittedSoFar front back (asked ++ [target.annot slot]) (state.add target slot) := by
  rw [Annotating.add]
  split
  next wrapper hwrapper => exact h.insertItem hfront hback hwrapper (target.name_annot slot)
  next hnone =>
    cases target with
    | returned => exact h.insert (.alone (WriteTarget.name_annot _ slot))
    | _ => cases hnone

theorem addAll (values : List (ValueToReturn × Nat)) (packed : Bool)
    (h : EmittedSoFar front back asked state)
    (hfront : ∀ annot ∈ front, NoWrapper annot) (hback : ∀ annot ∈ back, NoWrapper annot) :
    EmittedSoFar front back (asked ++ (targets values).map fun entry =>
      entry.1.annot (if packed then some entry.2 else none)) (state.addAll packed values) := by
  induction values generalizing asked state with
  | nil => simpa [Annotating.addAll, targets] using h
  | cons entry rest ih =>
    obtain ⟨value, slot⟩ := entry
    cases htarget : value.target with
    | none => simpa [Annotating.addAll, targets, htarget] using ih h
    | some target =>
      have hadd := h.add hfront hback target (if packed then some slot else none)
      simpa [Annotating.addAll, targets, htarget] using ih hadd

end EmittedSoFar

end AdviceMigration.Advice
