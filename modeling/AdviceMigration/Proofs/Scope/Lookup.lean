import AdviceMigration.Proofs.Scope.Reading

/-!
# Looking names up

A scope is numbered after the one around it, so a name that is looked up in a scope meets lower and lower numbers: what it means there depends on that scope and earlier ones only.
-/

namespace AdviceMigration.Scope

open AdviceMigration.Source

namespace ScopeData

theorem find?_insert (data : ScopeData) (name other : String) (resolution : Resolution) :
    (data.insert name resolution).find? other =
      if other = name then some resolution else data.find? other := by
  rw [find?, insert]
  by_cases h : other = name
  · simp [h]
  · have hne : (name == other) = false := by simpa using fun heq => h heq.symm
    rw [if_neg h, List.find?_cons_of_neg (by simp [hne]), List.find?_filter, find?]
    congr 2
    funext entry
    by_cases hentry : entry.1 = other <;> simp [hentry, h]

@[simp] theorem parent_insert (data : ScopeData) (name : String) (resolution : Resolution) :
    (data.insert name resolution).parent = data.parent := rfl

@[simp] theorem find?_nil (parent : Option Nat) (name : String) :
    find? ⟨parent, []⟩ name = none := rfl

end ScopeData

/-- Whether each scope is numbered after the one around it. -/
def Ordered (scopes : Array ScopeData) : Prop :=
  ∀ (scope : Nat) (data : ScopeData) (parent : Nat), scopes[scope]? = some data →
    data.parent = some parent → parent < scope

/-- What a name means in a scope. -/
def meaning (scopes : Array ScopeData) (scope : Nat) (name : String) : Option Resolution :=
  lookup scopes name (scope + 1) scope

theorem lookup_succ {scopes : Array ScopeData} {scope : Nat} {data : ScopeData}
    (hdata : scopes[scope]? = some data) (name : String) (steps : Nat) :
    lookup scopes name (steps + 1) scope =
      (data.find? name).or (data.parent.bind (lookup scopes name steps)) := by
  rw [lookup, hdata]
  cases hfind : data.find? name with
  | some resolution => simp [hfind]
  | none => cases hparent : data.parent <;> simp [hfind, hparent]

theorem lookup_of_none {scopes : Array ScopeData} {scope : Nat} (hdata : scopes[scope]? = none)
    (name : String) (steps : Nat) : lookup scopes name steps scope = none := by
  cases steps with
  | zero => rfl
  | succ steps => rw [lookup, hdata]

/-- More steps than the number of the scope make no difference. -/
theorem lookup_eq_meaning {scopes : Array ScopeData} (hordered : Ordered scopes) (name : String)
    {steps scope : Nat} (h : scope < steps) :
    lookup scopes name steps scope = meaning scopes scope name := by
  induction scope using Nat.strongRecOn generalizing steps with
  | ind scope ih =>
    obtain ⟨steps, rfl⟩ : ∃ fewer, steps = fewer + 1 := ⟨steps - 1, by omega⟩
    cases hdata : scopes[scope]? with
    | none => rw [meaning, lookup_of_none hdata, lookup_of_none hdata]
    | some data =>
      rw [meaning, lookup_succ hdata, lookup_succ hdata]
      cases hparent : data.parent with
      | none => rfl
      | some parent =>
        have hlt : parent < scope := hordered scope data parent hdata hparent
        have hsteps : parent < steps := by omega
        rw [Option.bind_some, Option.bind_some, ih parent hlt hlt, ih parent hlt hsteps]

/-- A name means what it is bound to in the scope, or else what it means in the scope around it. -/
theorem meaning_eq {scopes : Array ScopeData} (hordered : Ordered scopes) {scope : Nat}
    {data : ScopeData} (hdata : scopes[scope]? = some data) (name : String) :
    meaning scopes scope name = (data.find? name).or
      (data.parent.bind fun parent => meaning scopes parent name) := by
  rw [meaning, lookup_succ hdata]
  cases hparent : data.parent with
  | none => rfl
  | some parent =>
    rw [Option.bind_some, Option.bind_some,
      lookup_eq_meaning hordered name (hordered scope data parent hdata hparent)]

theorem meaning_congr {scopes scopes' : Array ScopeData} (hordered : Ordered scopes)
    (name : String) {scope : Nat} (h : ∀ other ≤ scope, scopes'[other]? = scopes[other]?) :
    meaning scopes' scope name = meaning scopes scope name := by
  have hlookup : ∀ (steps scope : Nat), (∀ other ≤ scope, scopes'[other]? = scopes[other]?) →
      lookup scopes' name steps scope = lookup scopes name steps scope := by
    intro steps
    induction steps with
    | zero => exact fun _ _ => rfl
    | succ steps ih =>
      intro scope h
      have hscope := h scope (Nat.le_refl scope)
      cases hdata : scopes[scope]? with
      | none => rw [lookup_of_none hdata, lookup_of_none (hscope.trans hdata)]
      | some data =>
        rw [lookup_succ hdata, lookup_succ (hscope.trans hdata)]
        cases hparent : data.parent with
        | none => rfl
        | some parent =>
          have hlt : parent < scope := hordered scope data parent hdata hparent
          rw [Option.bind_some, Option.bind_some,
            ih parent fun other hother => h other (Nat.le_trans hother (Nat.le_of_lt hlt))]
  exact hlookup (scope + 1) scope h

/-! ### Opening scopes and binding names -/

theorem Ordered.push {scopes : Array ScopeData} (h : Ordered scopes) {current : Nat}
    (hcurrent : current < scopes.size) : Ordered (scopes.push ⟨some current, []⟩) := by
  intro scope data parent hdata hparent
  rw [Array.getElem?_push] at hdata
  split at hdata
  next heq =>
    cases hdata
    cases hparent
    rwa [heq]
  next => exact h scope data parent hdata hparent

theorem Ordered.modify {scopes : Array ScopeData} (h : Ordered scopes) (current : Nat)
    (name : String) (resolution : Resolution) :
    Ordered (scopes.modify current fun data => data.insert name resolution) := by
  intro scope data parent hdata hparent
  rw [Array.getElem?_modify] at hdata
  split at hdata
  · obtain ⟨old, hold, rfl⟩ := Option.map_eq_some_iff.1 hdata
    exact h scope old parent hold hparent
  · exact h scope data parent hdata hparent

theorem getElem?_push_of_lt {scopes : Array ScopeData} {scope : Nat} (h : scope < scopes.size)
    (data : ScopeData) : (scopes.push data)[scope]? = scopes[scope]? := by
  rw [Array.getElem?_push, if_neg (Nat.ne_of_lt h)]

theorem meaning_push {scopes : Array ScopeData} (hordered : Ordered scopes) (data : ScopeData)
    {scope : Nat} (h : scope < scopes.size) (name : String) :
    meaning (scopes.push data) scope name = meaning scopes scope name :=
  meaning_congr hordered name fun _ hother => getElem?_push_of_lt (Nat.lt_of_le_of_lt hother h) data

/-- In a new scope names mean what they mean around it. -/
theorem meaning_push_size {scopes : Array ScopeData} (hordered : Ordered scopes) {current : Nat}
    (hcurrent : current < scopes.size) (name : String) :
    meaning (scopes.push ⟨some current, []⟩) scopes.size name = meaning scopes current name := by
  rw [meaning_eq (hordered.push hcurrent) (Array.getElem?_push_size), ScopeData.find?_nil,
    Option.none_or, Option.bind_some, meaning_push hordered _ hcurrent]

theorem meaning_modify_of_lt {scopes : Array ScopeData} (hordered : Ordered scopes)
    {current scope : Nat} (h : scope < current) (name other : String) (resolution : Resolution) :
    meaning (scopes.modify current fun data => data.insert name resolution) scope other =
      meaning scopes scope other := by
  refine meaning_congr hordered other fun lower hlower => ?_
  rw [Array.getElem?_modify, if_neg (by omega)]

theorem meaning_modify_self {scopes : Array ScopeData} (hordered : Ordered scopes)
    {current : Nat} (hcurrent : current < scopes.size) (name other : String)
    (resolution : Resolution) :
    meaning (scopes.modify current fun data => data.insert name resolution) current other =
      if other = name then some resolution else meaning scopes current other := by
  have hdata : scopes[current]? = some scopes[current] := Array.getElem?_eq_getElem hcurrent
  have hmodified : (scopes.modify current fun data => data.insert name resolution)[current]? =
      some (scopes[current].insert name resolution) := by
    rw [Array.getElem?_modify, if_pos rfl, hdata]
    rfl
  rw [meaning_eq (hordered.modify current name resolution) hmodified, meaning_eq hordered hdata,
    ScopeData.find?_insert]
  by_cases h : other = name
  · simp [h]
  · rw [if_neg h, if_neg h]
    congr 1
    rw [ScopeData.parent_insert]
    cases hparent : scopes[current].parent with
    | none => rfl
    | some parent =>
      have hlt : parent < current := hordered current _ parent hdata hparent
      exact meaning_modify_of_lt hordered hlt name other resolution

end AdviceMigration.Scope
