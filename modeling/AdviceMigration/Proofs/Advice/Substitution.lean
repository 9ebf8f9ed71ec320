import AdviceMigration.Proofs.Advice.Issuing
import AdviceMigration.Proofs.Advice.Usages
import AdviceMigration.Proofs.Scope.Insertion
import AdviceMigration.Proofs.Scope.Lateness

/-!
# References replaced by an expression

Three walks speak of the references to a declaration: one reads scopes, one counts usages, one puts copies of an expression in place of the references. They find the same names. The last one changes nothing else, and a declaration is not used any more afterwards, if the expression has no name that is spelled like it.
-/

namespace AdviceMigration.Source

open AdviceMigration.Scope

/-! ### Copies -/

/-- A copy has new identities and the names of the original. -/
theorem Traversal.weaves_renumber : Traversal.renumber.Weaves (fun _ _ => True)
    fun _ used expr => ∃ id, expr = .name id used :=
  ⟨fun _ => .trivial, fun _ _ => Always.trivial.map fun id _ => ⟨id, rfl⟩⟩

theorem Woven.names_eq {decl : NodeId → NodeId → Prop} {events events' : List Event}
    (h : Woven decl (fun _ used expr => ∃ id, expr = .name id used) events events') :
    (namesOf events').map (·.2) = (namesOf events).map (·.2) := by
  induction h with
  | nil => rfl
  | @cons event piece events events' hpiece _ ih =>
    rw [namesOf_append, List.map_append, ih]
    cases hpiece with
    | @use role used id expr hexpr =>
      obtain ⟨id', rfl⟩ := hexpr
      rw [mem_eventsAs.2]
      rfl
    | _ => rfl

/-- Whether an expression is a copy of another one, whose identities were drawn from `next` to `next'`. -/
structure Expr.IsCopy (expr : Expr) (next next' : NodeId) (copy : Expr) : Prop where
  made : ∃ first, copy = (expr.freshCopy.run first).1
  ids : ∀ id ∈ copy.ids, next ≤ id ∧ id < next'

namespace Expr.IsCopy

variable {expr copy : Expr} {next next' lower upper : NodeId}

theorem mono (h : expr.IsCopy next next' copy) (hlower : lower ≤ next) (hupper : next' ≤ upper) :
    expr.IsCopy lower upper copy :=
  ⟨h.made, fun id hid => ⟨Nat.le_trans hlower (h.ids id hid).1,
    Nat.lt_of_lt_of_le (h.ids id hid).2 hupper⟩⟩

theorem names_eq (h : expr.IsCopy next next' copy) :
    (namesOf copy.events).map (·.2) = (namesOf expr.events).map (·.2) := by
  obtain ⟨first, rfl⟩ := h.made
  exact ((expr.weaves Traversal.weaves_renumber).run_state first).events.names_eq

end Expr.IsCopy

/-! ### Trees with expressions in place of names -/

/-- The traversal that puts expressions in place of the names chosen. -/
def Traversal.substituting (copies : NodeId → Option Expr) : Traversal Id where
  decl := fun id => pure id
  name := fun id name => pure ((copies id).getD (.name id name))

/-- The method with expressions in place of the chosen names of its body, and everything else as it is. -/
def Method.substitute (copies : NodeId → Option Expr) (method : Method) : Method :=
  { method with body := Id.run (Block.traverseOption (.substituting copies) method.body) }

/-- Without any expression nothing changes. -/
theorem Method.substitute_none (method : Method) : method.substitute (fun _ => none) = method := by
  have hsame : Traversal.substituting (fun _ => none) = Spelling.same.traversal := rfl
  obtain ⟨_, _, _, _, _, _, _, _, _, _ | body⟩ := method
  · rfl
  · rw [substitute, hsame]
    exact congrArg (fun body => Method.mk _ _ _ _ _ _ _ _ _ (some body)) body.respell_same

end AdviceMigration.Source

namespace AdviceMigration.Advice

open AdviceMigration.Source AdviceMigration.Scope

/-! ### Replacing as a substitution -/

/-- Whether copies of an expression are chosen for the references to a declaration and for nothing else. -/
structure Copies (scopes : BodyScopes) (decl : NodeId) (replacement : Expr) (next next' : NodeId)
    (names : List (NodeId × String)) (copies : NodeId → Option Expr) : Prop where
  chosen : ∀ id, (copies id).isSome ↔ id ∈ names.map (·.1) ∧ RefersTo scopes decl id
  copy : ∀ id copy, copies id = some copy → replacement.IsCopy next next' copy

instance (scopes : BodyScopes) (decl id : NodeId) : Decidable (RefersTo scopes decl id) :=
  decidable_of_iff ((scopes.resolve? id).any (·.decl == decl) = true) <| by
    rw [Option.any_eq_true, RefersTo]
    exact exists_congr fun _ => and_congr_right fun _ => beq_iff_eq

/-- What is chosen for one more name comes in front, if the name is not met again. -/
theorem Copies.cons {scopes : BodyScopes} {decl id : NodeId} {replacement : Expr} {name : String}
    {next middle next' : NodeId} {names : List (NodeId × String)} {copies : NodeId → Option Expr}
    {choice : Option Expr} (hchosen : choice.isSome ↔ RefersTo scopes decl id)
    (hcopy : ∀ copy, choice = some copy → replacement.IsCopy next middle copy)
    (h : Copies scopes decl replacement middle next' names copies) (hle : next ≤ middle)
    (hle' : middle ≤ next') :
    Copies scopes decl replacement next next' ((id, name) :: names)
      (Function.update copies id choice) where
  chosen other := by
    rw [List.map_cons, List.mem_cons]
    by_cases heq : other = id
    · subst heq
      simp [hchosen]
    · rw [Function.update_of_ne heq, h.chosen other]
      simp [heq]
  copy other copy hsome := by
    by_cases heq : other = id
    · subst heq
      rw [Function.update_self] at hsome
      exact (hcopy copy hsome).mono (Nat.le_refl next) hle'
    · rw [Function.update_of_ne heq] at hsome
      exact (h.copy other copy hsome).mono hle (Nat.le_refl next')

end AdviceMigration.Advice
