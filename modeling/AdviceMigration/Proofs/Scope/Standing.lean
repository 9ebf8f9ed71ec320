import AdviceMigration.Proofs.Scope.Alignment

/-!
# Events in other surroundings

What a body declares does not depend on where the body stands. Its events are read once from nothing and once inside other scopes: a name then means what the body binds it to, and what it means around the body if the body does not bind it. Two methods with the same body are compared by what their names mean around it.
-/

namespace AdviceMigration.Scope

open AdviceMigration.Source

/-- What names mean in the current scope of a reader. -/
def ScopeReader.names (reader : ScopeReader) : Names :=
  reading.meaning reader

theorem ScopeReader.names_open {reader : ScopeReader} (h : Numbered reader) :
    (reader.take .open).names = reader.names := by
  funext name
  exact meaning_push_size h.ordered h.current name

theorem ScopeReader.names_bind {reader : ScopeReader} (h : Numbered reader) (binder : Binder)
    (name : String) (id : NodeId) :
    (reader.take (.bind binder name id)).names = reader.names.set name (binder.resolution id) := by
  funext other
  exact meaning_modify_self h.ordered h.current name other _

/-- Whether a reader stands inside the scope `floor` of another, which held the scopes `around` when it got there. -/
structure Stands (outer : Names) (floor : Nat) (around : List Nat) (inside reader : ScopeReader) :
    Prop where
  numbered : Numbered inside
  numbered' : Numbered reader
  current : reader.current = inside.current + floor
  held : reader.held = inside.held.map (· + floor) ++ around
  size : reader.scopes.size = inside.scopes.size + floor
  root : ∀ name, meaning reader.scopes floor name =
    (meaning inside.scopes 0 name).or (outer name)
  inner : ∀ scope, 0 < scope → scope < inside.scopes.size → ∃ parent entries,
    inside.scopes[scope]? = some ⟨some parent, entries⟩ ∧
      reader.scopes[scope + floor]? = some ⟨some (parent + floor), entries⟩

namespace Stands

variable {outer : Names} {floor : Nat} {around : List Nat} {inside reader : ScopeReader}

/-- Reading starts in the scope that was opened last. -/
theorem start (h : Numbered reader) (hlast : reader.current + 1 = reader.scopes.size) :
    Stands reader.names reader.current reader.held .start reader where
  numbered := numbered_start
  numbered' := h
  current := (Nat.zero_add _).symm
  held := rfl
  size := hlast.symm.trans (Nat.add_comm _ _)
  root := fun _ => rfl
  inner := fun _ hpos hsize => absurd (Nat.le_of_lt_succ hsize) (Nat.not_le_of_lt hpos)

/-- Names mean what they are bound to inside, or else what they mean around it. -/
theorem meaning_eq (h : Stands outer floor around inside reader) (name : String) {scope : Nat}
    (hscope : scope < inside.scopes.size) : meaning reader.scopes (scope + floor) name =
      (meaning inside.scopes scope name).or (outer name) := by
  induction scope using Nat.strongRecOn with
  | ind scope ih =>
    rcases Nat.eq_zero_or_pos scope with rfl | hpos
    · rw [Nat.zero_add]
      exact h.root name
    · obtain ⟨parent, entries, hdata, hdata'⟩ := h.inner scope hpos hscope
      have hlt : parent < scope := h.numbered.ordered scope _ parent hdata rfl
      have hmeaning := ih parent hlt (Nat.lt_trans hlt hscope)
      rw [Scope.meaning_eq h.numbered'.ordered hdata', Scope.meaning_eq h.numbered.ordered hdata,
        Option.bind_some, Option.bind_some, hmeaning, Option.or_assoc]
      rfl

theorem names_eq (h : Stands outer floor around inside reader) (name : String) :
    reader.names name = (inside.names name).or (outer name) := by
  have hmeaning := h.meaning_eq name h.numbered.current
  rwa [← h.current] at hmeaning

theorem hold (h : Stands outer floor around inside reader) :
    Stands outer floor around (inside.take .hold) (reader.take .hold) where
  numbered := h.numbered.move .hold
  numbered' := h.numbered'.move .hold
  current := h.current
  held := by
    change reader.current :: reader.held = _
    rw [h.current, h.held]
    rfl
  size := h.size
  root := h.root
  inner := h.inner

theorem «open» (h : Stands outer floor around inside reader) :
    Stands outer floor around (inside.take .open) (reader.take .open) where
  numbered := h.numbered.move .open
  numbered' := h.numbered'.move .open
  current := h.size
  held := h.held
  size := by
    change (reader.scopes.push _).size = (inside.scopes.push _).size + floor
    rw [Array.size_push, Array.size_push, h.size, Nat.add_right_comm]
  root := by
    intro name
    have hpos : 0 < inside.scopes.size := Nat.lt_of_le_of_lt (Nat.zero_le _) h.numbered.current
    have hfloor : floor < reader.scopes.size := by rw [h.size]; omega
    change meaning (reader.scopes.push _) floor name =
      (meaning (inside.scopes.push _) 0 name).or (outer name)
    rw [meaning_push h.numbered'.ordered _ hfloor, meaning_push h.numbered.ordered _ hpos,
      h.root name]
  inner := by
    intro scope hpos hsize
    change ∃ parent entries, (inside.scopes.push _)[scope]? = _ ∧
      (reader.scopes.push _)[scope + floor]? = _
    rcases Nat.lt_or_ge scope inside.scopes.size with hlt | hge
    · obtain ⟨parent, entries, hdata, hdata'⟩ := h.inner scope hpos hlt
      have hlt' : scope + floor < reader.scopes.size := by rw [h.size]; omega
      refine ⟨parent, entries, ?_, ?_⟩
      · rw [getElem?_push_of_lt hlt, hdata]
      · rw [getElem?_push_of_lt hlt', hdata']
    · obtain rfl : scope = inside.scopes.size :=
        Nat.le_antisymm (Nat.le_of_lt_succ (Nat.lt_of_lt_of_eq hsize (Array.size_push _))) hge
      refine ⟨inside.current, [], Array.getElem?_push_size, ?_⟩
      rw [← h.size, ← h.current]
      exact Array.getElem?_push_size

theorem bind (h : Stands outer floor around inside reader) (binder : Binder) (name : String)
    (id : NodeId) : Stands outer floor around (inside.take (.bind binder name id))
      (reader.take (.bind binder name id)) where
  numbered := h.numbered.move (.bind binder name id)
  numbered' := h.numbered'.move (.bind binder name id)
  current := h.current
  held := h.held
  size := by
    change (reader.scopes.modify _ _).size = (inside.scopes.modify _ _).size + floor
    rw [Array.size_modify, Array.size_modify, h.size]
  root := by
    intro other
    change meaning (reader.scopes.modify reader.current _) floor other =
      (meaning (inside.scopes.modify inside.current _) 0 other).or (outer other)
    have hroot := h.root other
    rcases Nat.eq_zero_or_pos inside.current with hzero | hpos
    · have hcurrent : reader.current = floor := by rw [h.current, hzero, Nat.zero_add]
      have hlt := h.numbered.current
      have hlt' := h.numbered'.current
      rw [hzero] at hlt ⊢
      rw [hcurrent] at hlt' ⊢
      rw [meaning_modify_self h.numbered'.ordered hlt', meaning_modify_self h.numbered.ordered hlt,
        hroot]
      split <;> rfl
    · have hfloor : floor < reader.current := by rw [h.current]; omega
      rw [meaning_modify_of_lt h.numbered'.ordered hfloor,
        meaning_modify_of_lt h.numbered.ordered hpos, hroot]
  inner := by
    intro scope hpos hsize
    change ∃ parent entries, (inside.scopes.modify inside.current _)[scope]? = _ ∧
      (reader.scopes.modify reader.current _)[scope + floor]? = _
    obtain ⟨parent, entries, hdata, hdata'⟩ :=
      h.inner scope hpos (Nat.lt_of_lt_of_eq hsize (Array.size_modify ..))
    rw [Array.getElem?_modify, Array.getElem?_modify, hdata, hdata', h.current]
    by_cases heq : inside.current = scope
    · rw [if_pos heq, if_pos (congrArg (· + floor) heq)]
      exact ⟨parent, _, rfl, rfl⟩
    · rw [if_neg heq, if_neg (by omega)]
      exact ⟨parent, entries, rfl, rfl⟩

theorem release (h : Stands outer floor around inside reader) (hheld : 0 < inside.held.length) :
    Stands outer floor around (inside.take .release) (reader.take .release) := by
  have hnumbered := h.numbered.move .release
  have hnumbered' := h.numbered'.move .release
  obtain ⟨scopes, current, held, uses⟩ := inside
  obtain ⟨scopes', current', held', uses'⟩ := reader
  obtain rfl : held' = held.map (· + floor) ++ around := h.held
  cases held with
  | nil => exact absurd hheld (Nat.lt_irrefl 0)
  | cons scope held => exact ⟨hnumbered, hnumbered', rfl, rfl, h.size, h.root, h.inner⟩

theorem swap (h : Stands outer floor around inside reader) (hheld : 0 < inside.held.length) :
    Stands outer floor around (inside.take .swap) (reader.take .swap) := by
  have hnumbered := h.numbered.move .swap
  have hnumbered' := h.numbered'.move .swap
  obtain ⟨scopes, current, held, uses⟩ := inside
  obtain ⟨scopes', current', held', uses'⟩ := reader
  obtain rfl : held' = held.map (· + floor) ++ around := h.held
  obtain rfl : current' = current + floor := h.current
  cases held with
  | nil => exact absurd hheld (Nat.lt_irrefl 0)
  | cons scope held => exact ⟨hnumbered, hnumbered', rfl, rfl, h.size, h.root, h.inner⟩

/-- Names occur at the same places inside, whatever stands around. -/
theorem places (h : Stands outer floor around inside reader) {events : List Event}
    (hwithin : Within inside.held.length events) :
    List.Forall₂ (fun place place' => place'.id = place.id ∧ place'.name = place.name ∧
        ∀ name, place'.state.names name = (place.state.names name).or (outer name))
      (ScopeReader.reading.places inside events) (ScopeReader.reading.places reader events) := by
  induction events generalizing inside reader with
  | nil => exact .nil
  | cons event rest ih =>
    cases event with
    | use role name id => exact .cons ⟨rfl, rfl, h.names_eq⟩ (ih h hwithin)
    | effect => exact ih h hwithin
    | hold => exact ih h.hold hwithin
    | «open» => exact ih h.open hwithin
    | bind binder name id => exact ih (h.bind binder name id) hwithin
    | release =>
      obtain ⟨hheld, hrest⟩ := hwithin
      refine ih (h.release hheld) ?_
      obtain ⟨scopes, current, held, uses⟩ := inside
      cases held with
      | nil => exact absurd hheld (Nat.lt_irrefl 0)
      | cons scope held => exact hrest
    | swap =>
      obtain ⟨hheld, hrest⟩ := hwithin
      refine ih (h.swap hheld) ?_
      obtain ⟨scopes, current, held, uses⟩ := inside
      cases held with
      | nil => exact absurd hheld (Nat.lt_irrefl 0)
      | cons scope held => exact hrest

end Stands

/-- The same events inside the scopes that two readers opened last: names that they bind mean the same, all others what they mean around. -/
theorem places_around {reader reader' : ScopeReader} (h : Numbered reader) (h' : Numbered reader')
    (hlast : reader.current + 1 = reader.scopes.size)
    (hlast' : reader'.current + 1 = reader'.scopes.size) {events : List Event}
    (hwithin : Within 0 events) :
    List.Forall₂ (fun place place' => place'.id = place.id ∧ place'.name = place.name ∧
        ∃ inside : Place ScopeReader, inside ∈ ScopeReader.reading.places .start events ∧
          (∀ name, place.state.names name = (inside.state.names name).or (reader.names name)) ∧
          ∀ name, place'.state.names name = (inside.state.names name).or (reader'.names name))
      (ScopeReader.reading.places reader events) (ScopeReader.reading.places reader' events) := by
  have hstands := (Stands.start h hlast).places hwithin
  have hstands' := forall₂_and_mem ((Stands.start h' hlast').places hwithin)
  refine forall₂_comp ?_ hstands.flip hstands'
  rintro place inside place' ⟨hid, hname, hnames⟩ ⟨⟨hid', hname', hnames'⟩, hmem, -⟩
  exact ⟨hid'.trans hid.symm, hname'.trans hname.symm, inside, hmem, hnames, hnames'⟩

end AdviceMigration.Scope
