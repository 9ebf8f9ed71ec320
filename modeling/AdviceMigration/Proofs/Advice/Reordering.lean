import AdviceMigration.Proofs.Advice.Folding

/-!
# Expressions that change places

Whether the order of two expressions matters is read off their text: `conflicts` asks whether one of them has an effect while the other is no constant. On a machine that respects this reading, expressions that do not conflict give the same values and the same state in either order, and an expression that does not mention a variable can be evaluated before or after the variable gets a value.
-/

namespace AdviceMigration.Execution.Machine

open AdviceMigration.Source AdviceMigration.Advice

/-- What becomes of the evaluation of a value that is then given to a variable. -/
def storing {machine : Machine} (name : String) (evaluated : machine.Evaluated) :
    machine.Evaluated :=
  match evaluated with
  | some (.ok value, state) => some (.ok value, machine.assign state name value)
  | other => other

/-- Whether a machine respects what the text of an expression says of its effects. Any expression may throw, or not end. -/
structure RespectsEffects (machine : Machine) : Prop where
  lookup_assign : ∀ state name value,
    machine.lookup (machine.assign state name value) name = value
  eval_assign : ∀ id name value state,
    machine.eval (.assign (.name id name) .assign value) state =
      storing name (machine.eval value state)
  /-- An expression without side effects does not change the state. -/
  unchanged : ∀ {expr state result state'}, hasSideEffects expr = false →
    machine.eval expr state = some (result, state') → state' = state
  /-- What a constant gives does not depend on the state. -/
  constant : ∀ {expr}, isConstant expr = true → ∀ state state',
    (machine.eval expr state).map Prod.fst = (machine.eval expr state').map Prod.fst
  /-- An expression neither reads nor writes a variable that it does not mention. -/
  apart : ∀ {expr name}, mentionsAny [name] expr = false → ∀ state value,
    machine.eval expr (machine.assign state name value) =
      (machine.eval expr state).map fun evaluated =>
        (evaluated.1, machine.assign evaluated.2 name value)

variable {machine : Machine}

/-- Whether an expression has a value, and which state it leaves. -/
def Yields (expr : Expr) (state : machine.State) (value : machine.Value)
    (state' : machine.State) : Prop := machine.eval expr state = some (.ok value, state')

/-- Whether an expression has a value in every state. -/
def HasValue (machine : Machine) (expr : Expr) : Prop :=
  ∀ state, ∃ value state', machine.Yields expr state value state'

/-- Whether expressions have values from left to right, and which state they leave. -/
def YieldsAll (exprs : List Expr) (state : machine.State) (values : List machine.Value)
    (state' : machine.State) : Prop := machine.evalItems exprs state = some (.ok values, state')

section Values

variable {expr : Expr} {state state' : machine.State} {value : machine.Value}
  {values : List machine.Value}

theorem yieldsAll_nil : YieldsAll [] state values state' ↔ values = [] ∧ state' = state := by
  simp [YieldsAll, evalItems, eq_comm]

theorem yieldsAll_cons {rest : List Expr} : YieldsAll (expr :: rest) state values state' ↔
    ∃ value middle others, Yields expr state value middle ∧ YieldsAll rest middle others state' ∧
      values = value :: others := by
  constructor
  · intro hall
    rw [YieldsAll, evalItems] at hall
    split at hall
    next value middle hvalue =>
      split at hall
      next others _ hothers =>
        cases hall
        exact ⟨value, middle, others, hvalue, hothers, rfl⟩
      next hnone => exact absurd hall (hnone _ _)
    next => cases hall
    next => cases hall
  · rintro ⟨value, middle, others, hvalue, hothers, rfl⟩
    rw [YieldsAll] at hothers ⊢
    rw [evalItems, show machine.eval expr state = _ from hvalue]
    dsimp only
    rw [hothers]

theorem yieldsAll_append {exprs exprs' : List Expr} :
    YieldsAll (exprs ++ exprs') state values state' ↔ ∃ front middle back,
      YieldsAll exprs state front middle ∧ YieldsAll exprs' middle back state' ∧
        values = front ++ back := by
  induction exprs generalizing state values with
  | nil => simp [yieldsAll_nil]
  | cons expr rest ih =>
    rw [List.cons_append, yieldsAll_cons]
    constructor
    · rintro ⟨value, first, others, hvalue, hothers, rfl⟩
      obtain ⟨front, middle, back, hfront, hback, rfl⟩ := ih.1 hothers
      exact ⟨value :: front, middle, back, yieldsAll_cons.2 ⟨_, _, _, hvalue, hfront, rfl⟩, hback, rfl⟩
    · rintro ⟨front, middle, back, hfront, hback, rfl⟩
      obtain ⟨value, first, others, hvalue, hothers, rfl⟩ := yieldsAll_cons.1 hfront
      exact ⟨value, first, others ++ back, hvalue, ih.2 ⟨_, _, _, hothers, hback, rfl⟩, rfl⟩

theorem yieldsAll_name {id : NodeId} {name : String} {rest : List Expr} :
    YieldsAll (.name id name :: rest) state values state' ↔
      ∃ others, YieldsAll rest state others state' ∧ values = machine.lookup state name :: others := by
  simp [yieldsAll_cons, Yields, eval]

end Values

/-! ### Expressions that do not conflict -/

theorem hasSideEffects_of_isConstant {expr : Expr} (h : isConstant expr = true) :
    hasSideEffects expr = false := by
  fun_induction isConstant expr <;> simp_all [hasSideEffects, Expr.events]

theorem conflicts_comm (left right : Expr) : conflicts left right = conflicts right left :=
  Bool.or_comm _ _

namespace RespectsEffects

variable (h : machine.RespectsEffects) {expr other : Expr} {exprs : List Expr} {name : String}
  {state state' middle : machine.State} {value value' : machine.Value}
  {values : List machine.Value}

include h

/-- A constant that has a value has it in every state, which it leaves alone. -/
theorem yields_of_constant (hconstant : isConstant expr = true)
    (hyields : Yields expr state value state') :
    state' = state ∧ ∀ start : machine.State, Yields expr start value start := by
  have hpure := hasSideEffects_of_isConstant hconstant
  refine ⟨h.unchanged hpure hyields, fun start => ?_⟩
  have hsame := h.constant hconstant start state
  rw [show machine.eval expr state = _ from hyields, Option.map_some] at hsame
  obtain ⟨⟨_, after⟩, hstart, rfl⟩ := Option.map_eq_some_iff.1 hsame
  cases h.unchanged hpure hstart
  exact hstart

/-- A constant in front of an expression may as well stand behind it. -/
theorem swap_constant (hconstant : isConstant expr = true) (hyields : Yields expr state value middle)
    (hother : Yields other middle value' state') :
    Yields other state value' state' ∧ Yields expr state' value state' := by
  obtain ⟨rfl, heverywhere⟩ := h.yields_of_constant hconstant hyields
  exact ⟨hother, heverywhere state'⟩

/-- A constant behind an expression may as well stand in front of it. -/
theorem swap_constant_back (hconstant : isConstant other = true)
    (hyields : Yields expr state value middle) (hother : Yields other middle value' state') :
    Yields other state value' state ∧ Yields expr state value state' := by
  obtain ⟨rfl, heverywhere⟩ := h.yields_of_constant hconstant hother
  exact ⟨heverywhere state, hyields⟩

/-- Expressions that do not conflict may change places. -/
theorem swap (hconflict : conflicts expr other = false) (hyields : Yields expr state value middle)
    (hother : Yields other middle value' state') :
    ∃ between, Yields other state value' between ∧ Yields expr between value state' := by
  rw [conflicts, Bool.or_eq_false_iff, Bool.and_eq_false_iff, Bool.and_eq_false_iff,
    Bool.not_eq_false', Bool.not_eq_false'] at hconflict
  obtain ⟨hpure | hconstant, hpure' | hconstant'⟩ := hconflict
  · -- Neither has an effect.
    cases h.unchanged hpure hyields
    cases h.unchanged hpure' hother
    exact ⟨_, hother, hyields⟩
  · exact ⟨_, h.swap_constant hconstant' hyields hother⟩
  · exact ⟨_, h.swap_constant_back hconstant hyields hother⟩
  · exact ⟨_, h.swap_constant hconstant' hyields hother⟩

/-- An expression may change places with all those that it does not conflict with. -/
theorem swap_all (hconflict : ∀ left ∈ exprs, conflicts left expr = false) :
    (∃ middle, Yields expr state value middle ∧ YieldsAll exprs middle values state') ↔
      ∃ middle, YieldsAll exprs state values middle ∧ Yields expr middle value state' := by
  induction exprs generalizing state values with
  | nil => simp [yieldsAll_nil, and_comm]
  | cons left rest ih =>
    obtain ⟨hleft, hrest⟩ := List.forall_mem_cons.1 hconflict
    constructor
    · rintro ⟨middle, hvalue, hall⟩
      obtain ⟨first, between, others, hfirst, hothers, rfl⟩ := yieldsAll_cons.1 hall
      obtain ⟨before, hfirst', hvalue'⟩ := h.swap (conflicts_comm left expr ▸ hleft) hvalue hfirst
      obtain ⟨last, hothers', hlast⟩ := (ih hrest).1 ⟨between, hvalue', hothers⟩
      exact ⟨last, yieldsAll_cons.2 ⟨_, _, _, hfirst', hothers', rfl⟩, hlast⟩
    · rintro ⟨middle, hall, hvalue⟩
      obtain ⟨first, between, others, hfirst, hothers, rfl⟩ := yieldsAll_cons.1 hall
      obtain ⟨before, hvalue', hothers'⟩ := (ih hrest).2 ⟨middle, hothers, hvalue⟩
      obtain ⟨start, hvalue'', hfirst'⟩ := h.swap hleft hfirst hvalue'
      exact ⟨start, hvalue'', yieldsAll_cons.2 ⟨_, _, _, hfirst', hothers', rfl⟩⟩

/-! ### Variables that are not mentioned -/

theorem yields_assign (hmentions : mentionsAny [name] expr = false) :
    Yields expr (machine.assign state name value') value state' ↔
      ∃ middle, Yields expr state value middle ∧ state' = machine.assign middle name value' := by
  rw [Yields, h.apart hmentions, Option.map_eq_some_iff]
  constructor
  · rintro ⟨⟨result, middle⟩, heval, heq⟩
    cases heq
    exact ⟨middle, heval, rfl⟩
  · rintro ⟨middle, hyields, rfl⟩
    exact ⟨_, hyields, rfl⟩

theorem yieldsAll_assign (hmentions : ∀ expr ∈ exprs, mentionsAny [name] expr = false) :
    YieldsAll exprs (machine.assign state name value') values state' ↔
      ∃ middle, YieldsAll exprs state values middle ∧
        state' = machine.assign middle name value' := by
  induction exprs generalizing state values with
  | nil => simp [yieldsAll_nil, and_assoc]
  | cons expr rest ih =>
    obtain ⟨hexpr, hrest⟩ := List.forall_mem_cons.1 hmentions
    simp only [yieldsAll_cons, h.yields_assign hexpr]
    constructor
    · rintro ⟨first, _, others, ⟨middle, hfirst, rfl⟩, hothers, rfl⟩
      obtain ⟨last, hothers', rfl⟩ := (ih hrest).1 hothers
      exact ⟨last, ⟨_, _, _, hfirst, hothers', rfl⟩, rfl⟩
    · rintro ⟨last, ⟨first, middle, others, hfirst, hothers, rfl⟩, rfl⟩
      exact ⟨first, _, others, ⟨middle, hfirst, rfl⟩, (ih hrest).2 ⟨last, hothers, rfl⟩, rfl⟩

end RespectsEffects

end AdviceMigration.Execution.Machine
