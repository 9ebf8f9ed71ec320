import AdviceMigration.Proofs.Scope.Alignment
import AdviceMigration.Proofs.Scope.Dangling
import AdviceMigration.Proofs.Source.Weaving

/-!
# Expressions put in place of names

Putting an expression in place of a name may open scopes and bind pattern variables where the name stood. The scopes of the events before and after such a change are compared: those before stand at other places after, each inside the same others, and what they bind is bound alike or hidden by what an expression binds. So the names that stay never come to refer to a declaration to which they did not refer before.
-/

namespace AdviceMigration.Scope

open AdviceMigration.Source

/-! ### What expressions leave behind -/

theorem ScopeReader.take_release {reader : ScopeReader} {scope : Nat} {held : List Nat}
    (h : reader.held = scope :: held) :
    (reader.take .release).held = held ∧ (reader.take .release).current = scope := by
  rw [take, h]
  exact ⟨rfl, rfl⟩

theorem ScopeReader.take_swap {reader : ScopeReader} {scope : Nat} {held : List Nat}
    (h : reader.held = scope :: held) :
    (reader.take .swap).held = reader.current :: held ∧ (reader.take .swap).current = scope := by
  rw [take, h]
  exact ⟨rfl, rfl⟩

theorem ScopeReader.take_swap_nil {reader : ScopeReader} (h : reader.held = []) :
    reader.take .swap = reader := by
  rw [take, h]

theorem restores_binds {binds : List Event}
    (hbinds : ∀ event ∈ binds, ∃ binder name id, event = .bind binder name id)
    (reader : ScopeReader) :
    (ScopeReader.reading.after reader binds).held = reader.held ∧
      (ScopeReader.reading.after reader binds).current = reader.current := by
  induction binds generalizing reader with
  | nil => exact ⟨rfl, rfl⟩
  | cons event rest ih =>
    obtain ⟨binder, name, id, rfl⟩ := hbinds event List.mem_cons_self
    exact ih (fun other hother => hbinds other (List.mem_cons_of_mem _ hother)) _

/-- All events of a phrase release what they hold, and an expression ends in the scope where it began. -/
theorem Phrase.restores {form : Form} {events : List Event} (h : Phrase form events)
    (reader : ScopeReader) : (ScopeReader.reading.after reader events).held = reader.held ∧
      (form = .expression → (ScopeReader.reading.after reader events).current = reader.current) := by
  induction h generalizing reader with
  | nil => exact ⟨rfl, fun _ => rfl⟩
  | @append form events events' _ _ ih ih' =>
    rw [Reading.after_append]
    obtain ⟨hheld, hcurrent⟩ := ih reader
    obtain ⟨hheld', hcurrent'⟩ := ih' (ScopeReader.reading.after reader events)
    exact ⟨hheld'.trans hheld, fun hform => (hcurrent' hform).trans (hcurrent hform)⟩
  | statements _ ih => exact ⟨(ih reader).1, nofun⟩
  | cases _ ih => exact ⟨(ih reader).1, nofun⟩
  | effect => exact ⟨rfl, fun _ => rfl⟩
  | use => exact ⟨rfl, fun _ => rfl⟩
  | pattern => exact ⟨rfl, fun _ => rfl⟩
  | declare => exact ⟨rfl, nofun⟩
  | @outside events _ ih =>
    refine ⟨?_, nofun⟩
    have hafter : ScopeReader.reading.after reader (Scope.outside events) =
        (ScopeReader.reading.after (reader.take .swap) events).take .swap := by
      rw [Scope.outside, Reading.after_append]
      rfl
    rw [hafter]
    obtain ⟨hheld, hcurrent⟩ := ih (reader.take .swap)
    cases hreader : reader.held with
    | nil =>
      rw [ScopeReader.take_swap_nil hreader, hreader] at hheld
      rw [ScopeReader.take_swap_nil hreader, ScopeReader.take_swap_nil hheld, hheld]
    | cons scope held =>
      rw [(ScopeReader.take_swap hreader).1] at hheld
      rw [(ScopeReader.take_swap hheld).1, hcurrent rfl, (ScopeReader.take_swap hreader).2]
  | @enclosed binds events hbinds _ ih =>
    have hinner := ih (ScopeReader.reading.after ((reader.take .hold).take .open) binds)
    rw [(restores_binds hbinds _).1] at hinner
    have hafter : ScopeReader.reading.after reader (Scope.enclosed (binds ++ events)) =
        (ScopeReader.reading.after (ScopeReader.reading.after ((reader.take .hold).take .open) binds)
          events).take .release := by
      rw [Scope.enclosed, Reading.after_append, Reading.after_append, Reading.after_append]
      rfl
    rw [hafter]
    exact ⟨(ScopeReader.take_release hinner.1).1, fun _ => (ScopeReader.take_release hinner.1).2⟩
  | @held events _ ih =>
    have hinner := ih (reader.take .hold)
    have hafter : ScopeReader.reading.after reader (Scope.held events) =
        (ScopeReader.reading.after (reader.take .hold) events).take .release := by
      rw [Scope.held, Reading.after_append]
      rfl
    rw [hafter]
    exact ⟨(ScopeReader.take_release hinner.1).1, fun _ => (ScopeReader.take_release hinner.1).2⟩

/-- An expression is one in whatever role it stands. -/
theorem phrase_eventsAs (role : Role) (expr : Expr) : Phrase .expression (expr.eventsAs role) := by
  cases role with
  | read => exact expr.phrase
  | write => cases expr <;> first | exact .use | exact Expr.phrase _

/-! ### Scopes in other places -/

/-- Whether what a name meant is still what it means, unless something hides it that is not the declaration. -/
def Hides (decl : NodeId) (found found' : Option Resolution) : Prop :=
  found' = found ∨ ∃ resolution, found' = some resolution ∧ resolution.decl ≠ decl

theorem Hides.trans {decl : NodeId} {found found' found'' : Option Resolution}
    (h : Hides decl found found') (h' : Hides decl found' found'') : Hides decl found found'' := by
  rcases h' with rfl | h'
  · exact h
  · exact .inr h'

/-- Whether scopes stand at given places among others, each inside the same others, and bind names alike unless something hides them. -/
def Placed (decl : NodeId) (place : Nat → Nat) (scopes scopes' : Array ScopeData) : Prop :=
  ∀ (scope : Nat) (data : ScopeData), scopes[scope]? = some data → ∃ data',
    scopes'[place scope]? = some data' ∧ data'.parent = data.parent.map place ∧
      ∀ name, Hides decl (data.find? name) (data'.find? name)

namespace Placed

variable {decl : NodeId} {place : Nat → Nat} {scopes scopes' scopes'' : Array ScopeData}

theorem refl (decl : NodeId) (scopes : Array ScopeData) : Placed decl id scopes scopes := by
  intro scope data hdata
  exact ⟨data, hdata, Option.map_id'.symm, fun _ => .inl rfl⟩

theorem trans (h : Placed decl place scopes scopes') (h' : Placed decl id scopes' scopes'') :
    Placed decl place scopes scopes'' := by
  intro scope data hdata
  obtain ⟨data', hdata', hparent, hfind⟩ := h scope data hdata
  obtain ⟨data'', hdata'', hparent', hfind'⟩ := h' (place scope) data' hdata'
  refine ⟨data'', hdata'', ?_, fun name => (hfind name).trans (hfind' name)⟩
  rw [hparent', Option.map_id, id, hparent]

/-- Events that do not bind the declaration. -/
theorem after {events : List Event} (h : ∀ binder name, .bind binder name decl ∉ events)
    (reader : ScopeReader) :
    Placed decl id reader.scopes (ScopeReader.reading.after reader events).scopes := by
  induction events generalizing reader with
  | nil => exact .refl decl _
  | cons event rest ih =>
    refine trans ?_ (ih (fun binder name hmem => h binder name (List.mem_cons_of_mem _ hmem)) _)
    cases event with
    | «open» =>
      intro scope data hdata
      refine ⟨data, ?_, Option.map_id'.symm, fun _ => .inl rfl⟩
      exact (getElem?_push_of_lt (Array.getElem?_eq_some_iff.1 hdata).1 _).trans hdata
    | bind binder bound id =>
      intro scope data hdata
      change ∃ data', (reader.scopes.modify reader.current _)[scope]? = some data' ∧ _
      rw [Array.getElem?_modify, hdata]
      split
      · refine ⟨_, rfl, Option.map_id'.symm, fun name => ?_⟩
        rw [ScopeData.find?_insert]
        split
        · refine .inr ⟨_, rfl, fun heq => h binder bound ?_⟩
          rw [← heq, Binder.decl_resolution]
          exact List.mem_cons_self
        · exact .inl rfl
      · exact ⟨data, rfl, Option.map_id'.symm, fun _ => .inl rfl⟩
    | release =>
      obtain ⟨scopes, current, held, uses⟩ := reader
      cases held <;> exact .refl decl _
    | swap =>
      obtain ⟨scopes, current, held, uses⟩ := reader
      cases held <;> exact .refl decl _
    | _ => exact .refl decl _

theorem meaning (h : Placed decl place scopes scopes') (hordered : Ordered scopes)
    (hordered' : Ordered scopes') (name : String) {scope : Nat} (hscope : scope < scopes.size) :
    Hides decl (meaning scopes scope name) (meaning scopes' (place scope) name) := by
  induction scope using Nat.strongRecOn with
  | ind scope ih =>
    have hdata : scopes[scope]? = some scopes[scope] := Array.getElem?_eq_getElem hscope
    obtain ⟨data', hdata', hparent, hfind⟩ := h scope _ hdata
    rw [meaning_eq hordered hdata, meaning_eq hordered' hdata', hparent]
    rcases hfind name with hsame | ⟨resolution, hfound, hne⟩
    · rw [hsame]
      cases hfound : scopes[scope].find? name with
      | some resolution => exact .inl rfl
      | none =>
        cases hsome : scopes[scope].parent with
        | none => exact .inl rfl
        | some parent =>
          have hlt : parent < scope := hordered scope _ parent hdata hsome
          exact ih parent hlt (Nat.lt_trans hlt hscope)
    · rw [hfound]
      exact .inr ⟨resolution, rfl, hne⟩

end Placed

/-- Whether a reader has come as far as another, with scopes at given places. -/
structure Embeds (decl : NodeId) (place : Nat → Nat) (reader reader' : ScopeReader) : Prop where
  numbered : Numbered reader
  numbered' : Numbered reader'
  current : reader'.current = place reader.current
  held : reader'.held = reader.held.map place
  injective : ∀ scope < reader.scopes.size, ∀ other < reader.scopes.size,
    place scope = place other → scope = other
  placed : Placed decl place reader.scopes reader'.scopes

namespace Embeds

variable {decl : NodeId} {place : Nat → Nat} {reader reader' : ScopeReader}

theorem start (decl : NodeId) : Embeds decl id .start .start :=
  ⟨numbered_start, numbered_start, rfl, rfl, fun _ _ _ _ h => h, .refl decl _⟩

theorem place_lt (h : Embeds decl place reader reader') {scope : Nat}
    (hscope : scope < reader.scopes.size) : place scope < reader'.scopes.size := by
  obtain ⟨data', hdata', -⟩ := h.placed scope _ (Array.getElem?_eq_getElem hscope)
  exact (Array.getElem?_eq_some_iff.1 hdata').1

/-- A new scope stands at a new place. -/
theorem «open» (h : Embeds decl place reader reader') :
    ∃ place', Embeds decl place' (reader.take .open) (reader'.take .open) := by
  let place' : Nat → Nat := fun scope =>
    if scope = reader.scopes.size then reader'.scopes.size else place scope
  have hnew : place' reader.scopes.size = reader'.scopes.size := if_pos rfl
  have hold : ∀ scope < reader.scopes.size, place' scope = place scope :=
    fun scope hlt => if_neg (Nat.ne_of_lt hlt)
  have hsize : ∀ scope, scope < (reader.take .open).scopes.size → scope ≠ reader.scopes.size →
      scope < reader.scopes.size := by
    intro scope hlt hne
    have hlt' : scope < reader.scopes.size + 1 := Nat.lt_of_lt_of_eq hlt (Array.size_push _)
    omega
  refine ⟨place', h.numbered.move .open, h.numbered'.move .open, hnew.symm, ?_, ?_, ?_⟩
  · refine h.held.trans (List.map_congr_left fun scope hmem => ?_)
    exact (hold scope (h.numbered.held scope hmem)).symm
  · intro scope hscope other hother heq
    by_cases hscopeNew : scope = reader.scopes.size <;>
      by_cases hotherNew : other = reader.scopes.size
    · exact hscopeNew.trans hotherNew.symm
    · have hlt := hsize other hother hotherNew
      rw [hscopeNew, hnew, hold other hlt] at heq
      exact absurd heq.symm (Nat.ne_of_lt (h.place_lt hlt))
    · have hlt := hsize scope hscope hscopeNew
      rw [hotherNew, hnew, hold scope hlt] at heq
      exact absurd heq (Nat.ne_of_lt (h.place_lt hlt))
    · have hlt := hsize scope hscope hscopeNew
      have hlt' := hsize other hother hotherNew
      rw [hold scope hlt, hold other hlt'] at heq
      exact h.injective scope hlt other hlt' heq
  · intro scope data hdata
    change (reader.scopes.push _)[scope]? = some data at hdata
    change ∃ data', (reader'.scopes.push _)[place' scope]? = some data' ∧ _
    rw [Array.getElem?_push] at hdata
    split at hdata
    next heq =>
      cases hdata
      rw [heq, hnew, Array.getElem?_push_size]
      refine ⟨_, rfl, ?_, fun _ => .inl rfl⟩
      exact congrArg some (h.current.trans (hold _ h.numbered.current).symm)
    next =>
      have hlt := (Array.getElem?_eq_some_iff.1 hdata).1
      obtain ⟨data', hdata', hparent, hfind⟩ := h.placed scope data hdata
      refine ⟨data', ?_, ?_, hfind⟩
      · rw [hold scope hlt, getElem?_push_of_lt (h.place_lt hlt), hdata']
      · rw [hparent]
        refine Option.map_congr fun parent hmem => (hold parent ?_).symm
        exact Nat.lt_trans (h.numbered.ordered scope data parent hdata hmem) hlt

theorem bind (h : Embeds decl place reader reader') (binder : Binder) (name : String)
    (id : NodeId) : Embeds decl place (reader.take (.bind binder name id))
      (reader'.take (.bind binder name id)) := by
  have hsize : (reader.take (.bind binder name id)).scopes.size = reader.scopes.size :=
    Array.size_modify ..
  refine ⟨h.numbered.move (.bind binder name id), h.numbered'.move (.bind binder name id), h.current,
    h.held, hsize.symm ▸ h.injective, ?_⟩
  intro scope data hdata
  change (reader.scopes.modify reader.current _)[scope]? = some data at hdata
  change ∃ data', (reader'.scopes.modify reader'.current _)[place scope]? = some data' ∧ _
  rw [Array.getElem?_modify] at hdata
  rw [Array.getElem?_modify, h.current]
  split at hdata
  next heq =>
    obtain ⟨old, hold, rfl⟩ := Option.map_eq_some_iff.1 hdata
    obtain ⟨old', hold', hparent, hfind⟩ := h.placed scope old hold
    rw [if_pos (congrArg place heq), hold']
    refine ⟨_, rfl, hparent, fun other => ?_⟩
    rw [ScopeData.find?_insert, ScopeData.find?_insert]
    split
    · exact .inl rfl
    · exact hfind other
  next hne =>
    have hlt := (Array.getElem?_eq_some_iff.1 hdata).1
    rw [if_neg fun heq => hne (h.injective _ h.numbered.current _ hlt heq)]
    exact h.placed scope data hdata

/-- Events that stay. -/
theorem move (h : Embeds decl place reader reader') (event : Event) :
    ∃ place', Embeds decl place' (ScopeReader.reading.move reader event)
      (ScopeReader.reading.move reader' event) := by
  cases event with
  | «open» => exact h.open
  | bind binder name id => exact ⟨place, h.bind binder name id⟩
  | use role name id => exact ⟨place, h⟩
  | effect => exact ⟨place, h⟩
  | hold =>
    refine ⟨place, h.numbered.move .hold, h.numbered'.move .hold, h.current, ?_, h.injective,
      h.placed⟩
    change reader'.current :: reader'.held = (reader.current :: reader.held).map place
    rw [h.current, h.held, List.map_cons]
  | release =>
    have hnumbered := h.numbered.move .release
    have hnumbered' := h.numbered'.move .release
    obtain ⟨scopes, current, held, uses⟩ := reader
    obtain ⟨scopes', current', held', uses'⟩ := reader'
    obtain rfl : held' = held.map place := h.held
    cases held with
    | nil => exact ⟨place, h⟩
    | cons scope held => exact ⟨place, hnumbered, hnumbered', rfl, rfl, h.injective, h.placed⟩
  | swap =>
    have hnumbered := h.numbered.move .swap
    have hnumbered' := h.numbered'.move .swap
    obtain ⟨scopes, current, held, uses⟩ := reader
    obtain ⟨scopes', current', held', uses'⟩ := reader'
    obtain rfl : held' = held.map place := h.held
    obtain rfl : current' = place current := h.current
    cases held with
    | nil => exact ⟨place, h⟩
    | cons scope held => exact ⟨place, hnumbered, hnumbered', rfl, rfl, h.injective, h.placed⟩

/-- An expression that is put in. -/
theorem insert (h : Embeds decl place reader reader') {events : List Event}
    (hphrase : Phrase .expression events) (hbinds : ∀ binder name, .bind binder name decl ∉ events) :
    Embeds decl place reader (ScopeReader.reading.after reader' events) := by
  obtain ⟨hheld, hcurrent⟩ := hphrase.restores reader'
  exact ⟨h.numbered, h.numbered'.after events, (hcurrent rfl).trans h.current, hheld.trans h.held,
    h.injective, h.placed.trans (.after hbinds reader')⟩

theorem meaning (h : Embeds decl place reader reader') (name : String) :
    Hides decl (ScopeReader.reading.meaning reader name)
      (ScopeReader.reading.meaning reader' name) := by
  have hmeaning := h.placed.meaning h.numbered.ordered h.numbered'.ordered name h.numbered.current
  rw [← h.current] at hmeaning
  exact hmeaning

end Embeds

/-! ### References after a change -/

/-- Whether an occurrence refers to a declaration. -/
def Reference.LeadsTo (reference : Reference) (decl : NodeId) : Prop :=
  ∃ resolution, reference.resolution = some resolution ∧ resolution.decl = decl

/-- What stands in place of a name: one of some expressions if the name is chosen, else the name itself. -/
def Chosen (chosen : NodeId → Prop) (copy : Expr → Prop) (id : NodeId) (used : String)
    (expr : Expr) : Prop :=
  (chosen id ∧ copy expr) ∨ (¬ chosen id ∧ expr = .name id used)

theorem references_cons_of_ne {State : Type} (reading : Reading State) (state : State)
    {event : Event} (h : ∀ role name id, event ≠ .use role name id) (rest : List Event) :
    reading.references state (event :: rest) =
      reading.references (reading.move state event) rest := by
  cases event with
  | use role name id => exact absurd rfl (h role name id)
  | _ => rfl

/-- What stays of an event, and what takes the place of a name. -/
theorem becomes_iff {name : NodeId → String → Expr → Prop} {event : Event} {piece : List Event} :
    Becomes (· = ·) name event piece ↔
      (piece = [event] ∧ ∀ role used id, event ≠ .use role used id) ∨
      ∃ role used id expr, event = .use role used id ∧ name id used expr ∧
        piece = expr.eventsAs role := by
  constructor
  · intro h
    cases h with
    | use hexpr => exact .inr ⟨_, _, _, _, rfl, hexpr, rfl⟩
    | bind hid =>
      subst hid
      exact .inl ⟨rfl, nofun⟩
    | _ => exact .inl ⟨rfl, nofun⟩
  · rintro (⟨rfl, hne⟩ | ⟨role, used, id, expr, rfl, hexpr, rfl⟩)
    · cases event with
      | use role used id => exact absurd rfl (hne role used id)
      | bind binder bound id => exact .bind rfl
      | hold => exact .hold
      | «open» => exact .open
      | release => exact .release
      | swap => exact .swap
      | effect => exact .effect
    · exact .use hexpr

/-- What an expression says does not depend on its role, except for the role of its name. -/
theorem mem_eventsAs {role : Role} {expr : Expr} :
    (∀ binder name id, .bind binder name id ∈ expr.eventsAs role →
      .bind binder name id ∈ expr.events) ∧ namesOf (expr.eventsAs role) = namesOf expr.events := by
  cases role with
  | read => exact ⟨fun _ _ _ h => h, rfl⟩
  | write => cases expr <;> exact ⟨by simp [Expr.eventsAs], rfl⟩

/-- A reference is a name that the events use. -/
theorem mem_namesOf_of_reference {State : Type} {reading : Reading State} {state : State}
    {events : List Event} {reference : Reference} (h : reference ∈ reading.references state events) :
    (reference.id, reference.name) ∈ namesOf events := by
  rw [reading.namesOf_eq state]
  obtain ⟨place, hplace, rfl⟩ := List.mem_map.1 h
  exact List.mem_map.2 ⟨place, hplace, rfl⟩

/-- If expressions that do not bind a declaration stand in place of all references to it, then the only references left are in these expressions. -/
theorem Embeds.references {decl : NodeId} {place : Nat → Nat} {reader reader' : ScopeReader}
    (h : Embeds decl place reader reader') {chosen : NodeId → Prop} {copy : Expr → Prop}
    (hcopy : ∀ expr, copy expr → ∀ binder name, .bind binder name decl ∉ expr.events)
    {events events' : List Event} (hwoven : Woven (· = ·) (Chosen chosen copy) events events')
    (hchosen : ∀ reference ∈ ScopeReader.reading.references reader events,
      reference.LeadsTo decl → chosen reference.id) :
    ∀ reference ∈ ScopeReader.reading.references reader' events', reference.LeadsTo decl →
      ∃ expr, copy expr ∧ (reference.id, reference.name) ∈ namesOf expr.events := by
  induction hwoven generalizing place reader reader' with
  | nil => exact fun _ hmem => nomatch hmem
  | @cons event piece events events' hpiece _ ih =>
    intro reference hmem hleads
    rw [Reading.references_append] at hmem
    rcases becomes_iff.1 hpiece with ⟨rfl, hne⟩ | ⟨role, used, id, expr, rfl, hexpr, rfl⟩
    · rw [references_cons_of_ne _ _ hne] at hmem hchosen
      obtain ⟨place', hmove⟩ := h.move event
      exact ih hmove hchosen reference hmem hleads
    · rw [Reading.references_use, List.forall_mem_cons] at hchosen
      rcases hexpr with ⟨-, hexpr⟩ | ⟨hnot, rfl⟩
      · rcases List.mem_append.1 hmem with hmem | hmem
        · exact ⟨expr, hexpr, mem_eventsAs.2 ▸ mem_namesOf_of_reference hmem⟩
        · refine ih (h.insert (phrase_eventsAs role expr) ?_) hchosen.2 reference hmem hleads
          exact fun binder name hbind => hcopy expr hexpr binder name (mem_eventsAs.1 _ _ _ hbind)
      · have hevents : (Expr.name id used).eventsAs role = [.use role used id] := by
          cases role <;> rfl
        rw [hevents] at hmem
        rcases List.mem_cons.1 hmem with rfl | hmem
        · -- The name stays, so that it did not refer to the declaration, and does not now.
          obtain ⟨resolution, hresolution, hdecl⟩ := hleads
          rcases h.meaning used with hsame | ⟨other, hother, hne⟩
          · exact absurd (hchosen.1 ⟨resolution, hsame.symm.trans hresolution, hdecl⟩) hnot
          · cases hother.symm.trans hresolution
            exact absurd hdecl hne
        · exact ih h hchosen.2 reference hmem hleads

end AdviceMigration.Scope
