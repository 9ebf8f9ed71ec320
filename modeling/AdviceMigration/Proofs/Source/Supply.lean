import AdviceMigration.Source.Node

/-!
# The supply of identities

How computations that draw identities run.
-/

namespace AdviceMigration.Source

namespace Fresh

variable {α β : Type}

@[simp] theorem run_pure (value : α) (next : NodeId) :
    (pure value : Fresh α).run next = (value, next) := rfl

@[simp] theorem run_bind (make : Fresh α) (use : α → Fresh β) (next : NodeId) :
    (make >>= use).run next = (use (make.run next).1).run (make.run next).2 := rfl

@[simp] theorem run_id (next : NodeId) : Fresh.id.run next = (next, next + 1) := rfl

/-- Whether a computation only takes identities from the supply. -/
def Grows (make : Fresh α) : Prop := ∀ next, next ≤ (make.run next).2

theorem Grows.pure (value : α) : Grows (pure value) := fun next => Nat.le_refl next

theorem Grows.bind {make : Fresh α} {use : α → Fresh β} (h : Grows make)
    (huse : ∀ value, Grows (use value)) : Grows (make >>= use) := fun next =>
  Nat.le_trans (h next) (huse _ _)

theorem grows_id : Grows Fresh.id := fun next => Nat.le_succ next

end Fresh

@[simp] theorem Expr.run_fresh (name : String) (next : NodeId) :
    (Expr.fresh name).run next = (.name next name, next + 1) := rfl

theorem Expr.grows_fresh (name : String) : (Expr.fresh name).Grows := fun next => Nat.le_succ next

end AdviceMigration.Source
