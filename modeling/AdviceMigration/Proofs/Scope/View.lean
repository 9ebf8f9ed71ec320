import AdviceMigration.Proofs.Scope.Lookup

/-!
# Views

Where names are bound only in scopes that nothing else can see yet, the numbers of scopes do not matter: it is enough to know what each name means in the current scope and in the scopes remembered. Only pattern variables are bound otherwise, so a view reads a body without them as its scopes do.
-/

namespace AdviceMigration.Scope

open AdviceMigration.Source

/-- What each name means. -/
abbrev Names := String → Option Resolution

/-- The names with one that stands for something else. -/
def Names.set (names : Names) (name : String) (resolution : Resolution) : Names := fun other =>
  if other = name then some resolution else names other

/-- What each name means in the current scope and in the scopes remembered, last first. -/
structure View where
  names : Names
  held : List Names

namespace View

/-- No name means anything. -/
def start : View := ⟨fun _ => none, []⟩

/-- Takes one event. A new scope begins with the names around it. -/
def take (view : View) : Event → View
  | .hold => { view with held := view.names :: view.held }
  | .open => view
  | .release =>
    match view.held with
    | names :: held => ⟨names, held⟩
    | [] => view
  | .swap =>
    match view.held with
    | names :: held => ⟨names, view.names :: held⟩
    | [] => view
  | .bind binder name id => { view with names := view.names.set name (binder.resolution id) }
  | .use _ _ _ => view
  | .effect => view

/-- The reading that keeps what names mean. -/
def reading : Reading View where
  take := take
  meaning := View.names

end View

/-- Whether names are bound only right after a scope opens, before anything else can see it; `fresh` says whether the current scope is such a one. -/
def Disciplined : (fresh : Bool) → List Event → Prop
  | _, [] => True
  | fresh, .use _ _ _ :: rest => Disciplined fresh rest
  | fresh, .effect :: rest => Disciplined fresh rest
  | _, .open :: rest => Disciplined true rest
  | fresh, .bind _ _ _ :: rest => fresh = true ∧ Disciplined true rest
  | _, .hold :: rest => Disciplined false rest
  | _, .release :: rest => Disciplined false rest
  | _, .swap :: rest => Disciplined false rest

attribute [simp] Disciplined

theorem Disciplined.of_false {events : List Event} (h : Disciplined false events) (fresh : Bool) :
    Disciplined fresh events := by
  induction events with
  | nil => trivial
  | cons event rest ih =>
    cases event with
    | use role name id => exact ih h
    | effect => exact ih h
    | bind binder name id => exact absurd h.1 (by decide)
    | _ => exact h

theorem Disciplined.append {fresh : Bool} {events events' : List Event}
    (h : Disciplined fresh events) (h' : Disciplined false events') :
    Disciplined fresh (events ++ events') := by
  induction events generalizing fresh with
  | nil => exact h'.of_false fresh
  | cons event rest ih =>
    cases event with
    | bind binder name id => exact ⟨h.1, ih h.2⟩
    | _ => exact ih h

theorem disciplined_binds {events rest : List Event} (hbinds : ∀ event ∈ events,
    ∃ binder name id, event = .bind binder name id) (h : Disciplined true rest) :
    Disciplined true (events ++ rest) := by
  induction events with
  | nil => exact h
  | cons event events ih =>
    obtain ⟨binder, name, id, rfl⟩ := hbinds event List.mem_cons_self
    exact ⟨rfl, ih fun other hother => hbinds other (List.mem_cons_of_mem _ hother)⟩

/-! ### Views read as scopes do -/

/-- Whether a scope exists and names mean in it what they mean in a view. -/
def Shows (scopes : Array ScopeData) (scope : Nat) (names : Names) : Prop :=
  scope < scopes.size ∧ ∀ name, meaning scopes scope name = names name

/-- Whether the scopes of a reader look like a view. -/
structure Sees (reader : ScopeReader) (view : View) : Prop where
  ordered : Ordered reader.scopes
  current : Shows reader.scopes reader.current view.names
  held : List.Forall₂ (Shows reader.scopes) reader.held view.held

/-- Whether nothing but the current scope can see the current scope. -/
structure IsFresh (reader : ScopeReader) : Prop where
  last : reader.current + 1 = reader.scopes.size
  held : ∀ scope ∈ reader.held, scope < reader.current

theorem Sees.hold {reader : ScopeReader} {view : View} (h : Sees reader view) :
    Sees (reader.take .hold) (view.take .hold) :=
  ⟨h.ordered, h.current, .cons h.current h.held⟩

theorem Sees.open {reader : ScopeReader} {view : View} (h : Sees reader view) :
    Sees (reader.take .open) (view.take .open) ∧ IsFresh (reader.take .open) := by
  have hshows : ∀ scope names, Shows reader.scopes scope names →
      Shows (reader.scopes.push ⟨some reader.current, []⟩) scope names := by
    intro scope names hscope
    refine ⟨by rw [Array.size_push]; exact Nat.lt_succ_of_lt hscope.1, fun name => ?_⟩
    rw [meaning_push h.ordered _ hscope.1, hscope.2]
  refine ⟨⟨h.ordered.push h.current.1, ⟨?_, fun name => ?_⟩, ?_⟩, ⟨?_, ?_⟩⟩
  · exact Nat.lt_of_lt_of_eq (Nat.lt_succ_self _) (Array.size_push _).symm
  · exact (meaning_push_size h.ordered h.current.1 name).trans (h.current.2 name)
  · exact h.held.imp hshows
  · exact (Array.size_push _).symm
  · intro scope hscope
    obtain ⟨index, hindex, rfl⟩ := List.getElem_of_mem hscope
    have hlength : index < view.held.length := by rw [← h.held.length_eq]; exact hindex
    exact (h.held.get hindex hlength).1

theorem Sees.release {reader : ScopeReader} {view : View} (h : Sees reader view) :
    Sees (reader.take .release) (view.take .release) := by
  obtain ⟨scopes, current, held, uses⟩ := reader
  obtain ⟨names, held'⟩ := view
  obtain ⟨hordered, hcurrent, hheld⟩ := h
  cases hheld with
  | nil => exact ⟨hordered, hcurrent, .nil⟩
  | cons hscope hheld => exact ⟨hordered, hscope, hheld⟩

theorem Sees.swap {reader : ScopeReader} {view : View} (h : Sees reader view) :
    Sees (reader.take .swap) (view.take .swap) := by
  obtain ⟨scopes, current, held, uses⟩ := reader
  obtain ⟨names, held'⟩ := view
  obtain ⟨hordered, hcurrent, hheld⟩ := h
  cases hheld with
  | nil => exact ⟨hordered, hcurrent, .nil⟩
  | cons hscope hheld => exact ⟨hordered, hscope, .cons hcurrent hheld⟩

theorem forall₂_imp_of_mem {α β : Type} {R S : α → β → Prop} {as : List α} {bs : List β}
    (h : List.Forall₂ R as bs) (himp : ∀ a ∈ as, ∀ b, R a b → S a b) : List.Forall₂ S as bs := by
  induction h with
  | nil => exact .nil
  | cons hfirst hrest ih =>
    exact .cons (himp _ List.mem_cons_self _ hfirst)
      (ih fun a ha => himp a (List.mem_cons_of_mem _ ha))

/-- A name bound in a scope that nothing else sees changes the current scope only. -/
theorem Sees.bind {reader : ScopeReader} {view : View} (h : Sees reader view)
    (hfresh : IsFresh reader) (binder : Binder) (name : String) (id : NodeId) :
    Sees (reader.take (.bind binder name id)) (view.take (.bind binder name id)) ∧
      IsFresh (reader.take (.bind binder name id)) := by
  refine ⟨⟨h.ordered.modify _ _ _, ⟨?_, fun other => ?_⟩, ?_⟩, ⟨?_, hfresh.held⟩⟩
  · exact Nat.lt_of_lt_of_eq h.current.1 (Array.size_modify ..).symm
  · refine (meaning_modify_self h.ordered h.current.1 name other _).trans ?_
    rw [h.current.2]
    rfl
  · refine forall₂_imp_of_mem h.held fun scope hscope names hshows => ⟨?_, fun other => ?_⟩
    · exact Nat.lt_of_lt_of_eq hshows.1 (Array.size_modify ..).symm
    · exact (meaning_modify_of_lt h.ordered (hfresh.held scope hscope) name other _).trans
        (hshows.2 other)
  · exact hfresh.last.trans (Array.size_modify ..).symm

/-- A view that looks like the scopes finds the same references. -/
theorem Sees.references_eq {reader : ScopeReader} {view : View} (h : Sees reader view)
    {fresh : Bool} {events : List Event} (hfresh : fresh = true → IsFresh reader)
    (hevents : Disciplined fresh events) :
    ScopeReader.reading.references reader events = View.reading.references view events := by
  induction events generalizing reader view fresh with
  | nil => rfl
  | cons event rest ih =>
    cases event with
    | use role name id =>
      have hmeaning : ScopeReader.reading.meaning reader name = View.reading.meaning view name :=
        h.current.2 name
      rw [Reading.references_use, Reading.references_use, ih h hfresh hevents, hmeaning]
    | effect => exact ih h hfresh hevents
    | «open» => exact ih h.open.1 (fun _ => h.open.2) hevents
    | bind binder name id =>
      have hbind := h.bind (hfresh hevents.1) binder name id
      exact ih hbind.1 (fun _ => hbind.2) hevents.2
    | hold => exact ih h.hold (fun hfalse => absurd hfalse (by decide)) hevents
    | release => exact ih h.release (fun hfalse => absurd hfalse (by decide)) hevents
    | swap => exact ih h.swap (fun hfalse => absurd hfalse (by decide)) hevents

theorem sees_start : Sees .start .start := by
  refine ⟨?_, ⟨by decide, fun name => rfl⟩, .nil⟩
  intro scope data parent hdata hparent
  cases scope with
  | zero =>
    cases hdata
    cases hparent
  | succ scope => cases hdata

/-- A view reads a method whose body binds names in fresh scopes only as its scopes do. -/
theorem referencesOf_eq {method : Method}
    (hbody : Disciplined false (Block.eventsOption method.body)) :
    BodyScopes.referencesOf method =
      View.reading.references .start (BodyScopes.eventsOf method) := by
  have hevents : Disciplined true (BodyScopes.eventsOf method) := by
    refine disciplined_binds ?_ (hbody.of_false true)
    intro event hevent
    obtain ⟨param, -, rfl⟩ := List.mem_map.1 hevent
    exact ⟨_, _, _, rfl⟩
  refine sees_start.references_eq (fun _ => ⟨rfl, ?_⟩) hevents
  intro scope hscope
  cases hscope

end AdviceMigration.Scope
