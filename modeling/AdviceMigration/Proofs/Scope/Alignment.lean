import AdviceMigration.Proofs.Scope.Phrases

/-!
# Comparing the scopes of two methods

Two tools for methods that declare almost the same names. `Aligned` compares two readers that take the same events: the scopes of one stand at other places in the other, and names mean the same except for a few that are left out of the comparison. `Carries` follows one reader inside a scope that binds a name nothing else binds: the name means the same wherever the reader goes.
-/

namespace AdviceMigration.Scope

open AdviceMigration.Source

/-! ### Numbered scopes -/

/-- Whether the scopes of a reader are numbered in the order in which they opened, and those it may return to exist. -/
structure Numbered (reader : ScopeReader) : Prop where
  ordered : Ordered reader.scopes
  current : reader.current < reader.scopes.size
  held : ∀ scope ∈ reader.held, scope < reader.scopes.size

theorem numbered_start : Numbered .start :=
  ⟨sees_start.ordered, by decide, by simp [ScopeReader.start]⟩

theorem Numbered.move {reader : ScopeReader} (h : Numbered reader) (event : Event) :
    Numbered (ScopeReader.reading.move reader event) := by
  obtain ⟨scopes, current, held, uses⟩ := reader
  obtain ⟨hordered, hcurrent, hheld⟩ := h
  cases event with
  | hold =>
    exact ⟨hordered, hcurrent, List.forall_mem_cons.2 ⟨hcurrent, hheld⟩⟩
  | «open» =>
    have hsize : (scopes.push ⟨some current, []⟩).size = scopes.size + 1 := Array.size_push _
    refine ⟨hordered.push hcurrent, ?_, fun scope hscope => ?_⟩
    · exact Nat.lt_of_lt_of_eq (Nat.lt_succ_self _) hsize.symm
    · exact Nat.lt_of_lt_of_eq (Nat.lt_succ_of_lt (hheld scope hscope)) hsize.symm
  | release =>
    cases held with
    | nil => exact ⟨hordered, hcurrent, hheld⟩
    | cons scope held =>
      exact ⟨hordered, hheld scope List.mem_cons_self,
        fun other hother => hheld other (List.mem_cons_of_mem _ hother)⟩
  | swap =>
    cases held with
    | nil => exact ⟨hordered, hcurrent, hheld⟩
    | cons scope held =>
      exact ⟨hordered, hheld scope List.mem_cons_self, List.forall_mem_cons.2 ⟨hcurrent,
        fun other hother => hheld other (List.mem_cons_of_mem _ hother)⟩⟩
  | bind binder name id =>
    have hsize : (scopes.modify current fun data => data.insert name (binder.resolution id)).size =
      scopes.size := Array.size_modify ..
    exact ⟨hordered.modify _ _ _, Nat.lt_of_lt_of_eq hcurrent hsize.symm,
      fun scope hscope => Nat.lt_of_lt_of_eq (hheld scope hscope) hsize.symm⟩
  | use role name id => exact ⟨hordered, hcurrent, hheld⟩
  | effect => exact ⟨hordered, hcurrent, hheld⟩

theorem Numbered.after {reader : ScopeReader} (h : Numbered reader) (events : List Event) :
    Numbered (ScopeReader.reading.after reader events) := by
  induction events generalizing reader with
  | nil => exact h
  | cons event rest ih => exact ih (h.move event)

/-- Binding one name does not change what others mean, in any scope. -/
theorem meaning_modify_of_ne {scopes : Array ScopeData} {name other : String} (h : other ≠ name)
    (current scope : Nat) (resolution : Resolution) :
    meaning (scopes.modify current fun data => data.insert name resolution) scope other =
      meaning scopes scope other := by
  have hlookup : ∀ steps scope,
      lookup (scopes.modify current fun data => data.insert name resolution) other steps scope =
        lookup scopes other steps scope := by
    intro steps
    induction steps with
    | zero => exact fun _ => rfl
    | succ steps ih =>
      intro scope
      cases hdata : scopes[scope]? with
      | none =>
        rw [lookup_of_none hdata, lookup_of_none]
        rw [Array.getElem?_modify, hdata]
        split <;> rfl
      | some data =>
        obtain ⟨data', hdata', hfind, hparent⟩ : ∃ data' : ScopeData,
            (scopes.modify current fun data => data.insert name resolution)[scope]? = some data' ∧
              data'.find? other = data.find? other ∧ data'.parent = data.parent := by
          rw [Array.getElem?_modify, hdata]
          split
          · exact ⟨_, rfl, by rw [ScopeData.find?_insert, if_neg h], rfl⟩
          · exact ⟨data, rfl, rfl, rfl⟩
        rw [lookup_succ hdata', lookup_succ hdata, hfind, hparent]
        cases data.parent with
        | none => rfl
        | some parent => exact congrArg _ (ih parent)
  exact hlookup _ _

/-- Whether everything that names are bound to has a property. -/
def Binds (property : Resolution → Prop) (reader : ScopeReader) : Prop :=
  ∀ (scope : Nat) (data : ScopeData) (name : String) (resolution : Resolution),
    reader.scopes[scope]? = some data → data.find? name = some resolution → property resolution

namespace Binds

variable {property : Resolution → Prop} {reader : ScopeReader}

theorem start (property : Resolution → Prop) : Binds property .start := by
  intro scope data name resolution hdata hfind
  cases scope with
  | zero =>
    cases hdata
    cases hfind
  | succ scope => cases hdata

theorem move (h : Binds property reader) {event : Event}
    (hevent : ∀ binder name id, event = .bind binder name id → property (binder.resolution id)) :
    Binds property (ScopeReader.reading.move reader event) := by
  cases event with
  | «open» =>
    intro scope data name resolution hdata hfind
    change (reader.scopes.push _)[scope]? = some data at hdata
    rw [Array.getElem?_push] at hdata
    split at hdata
    · cases hdata
      cases hfind
    · exact h scope data name resolution hdata hfind
  | bind binder bound id =>
    intro scope data name resolution hdata hfind
    change (reader.scopes.modify reader.current _)[scope]? = some data at hdata
    rw [Array.getElem?_modify] at hdata
    split at hdata
    · obtain ⟨old, hold, rfl⟩ := Option.map_eq_some_iff.1 hdata
      rw [ScopeData.find?_insert] at hfind
      split at hfind
      · cases hfind
        exact hevent binder bound id rfl
      · exact h scope old name resolution hold hfind
    · exact h scope data name resolution hdata hfind
  | release =>
    obtain ⟨scopes, current, held, uses⟩ := reader
    cases held <;> exact h
  | swap =>
    obtain ⟨scopes, current, held, uses⟩ := reader
    cases held <;> exact h
  | hold => exact h
  | use role name id => exact h
  | effect => exact h

theorem after (h : Binds property reader) {events : List Event}
    (hevents : ∀ binder name id, .bind binder name id ∈ events →
      property (binder.resolution id)) :
    Binds property (ScopeReader.reading.after reader events) := by
  induction events generalizing reader with
  | nil => exact h
  | cons event rest ih =>
    have hmove := h.move fun binder name id (heq : event = _) =>
      hevents binder name id (heq ▸ List.mem_cons_self)
    exact ih hmove fun binder name id hmem =>
      hevents binder name id (List.mem_cons_of_mem _ hmem)

theorem meaning (h : Binds property reader) {name : String} {resolution : Resolution}
    (hmeaning : ScopeReader.reading.meaning reader name = some resolution) :
    property resolution := by
  have hlookup : ∀ steps scope, lookup reader.scopes name steps scope = some resolution →
      property resolution := by
    intro steps
    induction steps with
    | zero => exact fun _ hlookup => absurd hlookup (by simp [lookup])
    | succ steps ih =>
      intro scope hlookup
      cases hdata : reader.scopes[scope]? with
      | none => simp [lookup_of_none hdata] at hlookup
      | some data =>
        rw [lookup_succ hdata] at hlookup
        cases hfind : data.find? name with
        | some found =>
          rw [hfind] at hlookup
          cases hlookup
          exact h scope data name _ hdata hfind
        | none =>
          rw [hfind, Option.none_or] at hlookup
          obtain ⟨parent, -, hparent⟩ := Option.bind_eq_some_iff.1 hlookup
          exact ih parent hparent
  exact hlookup _ _ hmeaning

/-- What names mean where names occur was bound before. -/
theorem places (h : Binds property reader) {events : List Event}
    (hevents : ∀ binder name id, .bind binder name id ∈ events →
      property (binder.resolution id)) :
    ∀ place ∈ ScopeReader.reading.places reader events, Binds property place.state := by
  induction events generalizing reader with
  | nil => exact List.forall_mem_nil _
  | cons event rest ih =>
    have hrest : ∀ binder name id, .bind binder name id ∈ rest →
        property (binder.resolution id) :=
      fun binder name id hmem => hevents binder name id (List.mem_cons_of_mem _ hmem)
    have hmove := h.move fun binder name id (heq : event = _) =>
      hevents binder name id (heq ▸ List.mem_cons_self)
    cases event with
    | use role name id => exact List.forall_mem_cons.2 ⟨h, ih h hrest⟩
    | _ => exact ih hmove hrest

end Binds

/-! ### Staying inside a scope -/

/-- Whether events never return to more scopes than they hold, given that `depth` are held already. -/
def Within : (depth : Nat) → List Event → Prop
  | _, [] => True
  | depth, .hold :: rest => Within (depth + 1) rest
  | depth, .release :: rest => 0 < depth ∧ Within (depth - 1) rest
  | depth, .swap :: rest => 0 < depth ∧ Within depth rest
  | depth, .open :: rest => Within depth rest
  | depth, .bind _ _ _ :: rest => Within depth rest
  | depth, .use _ _ _ :: rest => Within depth rest
  | depth, .effect :: rest => Within depth rest

theorem Within.binds {binds rest : List Event} {depth : Nat}
    (hbinds : ∀ event ∈ binds, ∃ binder name id, event = .bind binder name id)
    (h : Within depth rest) : Within depth (binds ++ rest) := by
  induction binds with
  | nil => exact h
  | cons event binds ih =>
    obtain ⟨binder, name, id, rfl⟩ := hbinds event List.mem_cons_self
    exact ih fun other hother => hbinds other (List.mem_cons_of_mem _ hother)

/-- A phrase returns to no scope that was held before it, the cases of a `switch` to one at most. -/
theorem Phrase.within {form : Form} {events : List Event} (h : Phrase form events) :
    ∀ depth rest, (form = .cases → 0 < depth) → Within depth rest →
      Within depth (events ++ rest) := by
  induction h with
  | nil => exact fun _ _ _ hrest => hrest
  | append _ _ ih ih' =>
    intro depth rest hdepth hrest
    rw [List.append_assoc]
    exact ih depth _ hdepth (ih' depth rest hdepth hrest)
  | statements _ ih => exact fun depth rest _ hrest => ih depth rest (by simp) hrest
  | cases _ ih => exact fun depth rest _ hrest => ih depth rest (by simp) hrest
  | effect => exact fun _ _ _ hrest => hrest
  | use => exact fun _ _ _ hrest => hrest
  | pattern => exact fun _ _ _ hrest => hrest
  | declare => exact fun _ _ _ hrest => hrest
  | @outside events _ ih =>
    intro depth rest hdepth hrest
    rw [Scope.outside, List.cons_append, List.cons_append, List.append_assoc]
    exact ⟨hdepth rfl, ih depth _ (by simp) ⟨hdepth rfl, hrest⟩⟩
  | @enclosed binds events hbinds _ ih =>
    intro depth rest _ hrest
    have hrelease : Within (depth + 1) (.release :: rest) := ⟨Nat.succ_pos depth, hrest⟩
    have hevents := ih (depth + 1) _ (fun _ => Nat.succ_pos depth) hrelease
    have hbound : Within (depth + 1) (binds ++ (events ++ Event.release :: rest)) :=
      hevents.binds hbinds
    simpa [Scope.enclosed] using (show Within depth (.hold :: .open :: _) from hbound)
  | @held events _ ih =>
    intro depth rest _ hrest
    have hrelease : Within (depth + 1) (.release :: rest) := ⟨Nat.succ_pos depth, hrest⟩
    have hevents := ih (depth + 1) _ (by simp) hrelease
    simpa [Scope.held] using (show Within depth (.hold :: _) from hevents)

/-- Whether a reader is inside the scope `floor`, with `depth` scopes held since it got there, and a name has one meaning everywhere inside. -/
structure Carries (name : String) (resolution : Resolution) (floor depth : Nat)
    (reader : ScopeReader) : Prop where
  numbered : Numbered reader
  meaning : ∀ scope, floor ≤ scope → scope < reader.scopes.size →
    meaning reader.scopes scope name = some resolution
  current : floor ≤ reader.current
  held : ∀ scope ∈ reader.held.take depth, floor ≤ scope
  depth : depth ≤ reader.held.length

namespace Carries

variable {name : String} {resolution : Resolution} {floor depth : Nat} {reader : ScopeReader}

/-- Binding a name in the scope opened last. -/
theorem of_bind (h : Numbered reader) (hlast : reader.current + 1 = reader.scopes.size)
    (binder : Binder) (name : String) (id : NodeId) :
    Carries name (binder.resolution id) reader.current 0
      (reader.take (.bind binder name id)) where
  numbered := h.move (.bind binder name id)
  meaning := by
    intro scope hfloor hsize
    have hlt : scope < reader.scopes.size := Nat.lt_of_lt_of_eq hsize (Array.size_modify ..)
    obtain rfl : scope = reader.current := by omega
    refine (meaning_modify_self h.ordered h.current name name _).trans ?_
    rw [if_pos rfl]
  current := Nat.le_refl _
  held := by simp
  depth := Nat.zero_le _

theorem hold (h : Carries name resolution floor depth reader) :
    Carries name resolution floor (depth + 1) (reader.take .hold) where
  numbered := h.numbered.move .hold
  meaning := h.meaning
  current := h.current
  held := List.forall_mem_cons.2 ⟨h.current, h.held⟩
  depth := Nat.succ_le_succ h.depth

theorem «open» (h : Carries name resolution floor depth reader) :
    Carries name resolution floor depth (reader.take .open) where
  numbered := h.numbered.move .open
  meaning := by
    intro scope hfloor hsize
    change Scope.meaning (reader.scopes.push ⟨some reader.current, []⟩) scope name = _
    rcases Nat.lt_or_ge scope reader.scopes.size with hlt | hge
    · rw [meaning_push h.numbered.ordered _ hlt, h.meaning scope hfloor hlt]
    · have hscope : scope = reader.scopes.size :=
        Nat.le_antisymm (Nat.le_of_lt_succ (Nat.lt_of_lt_of_eq hsize (Array.size_push _))) hge
      rw [hscope, meaning_push_size h.numbered.ordered h.numbered.current,
        h.meaning _ h.current h.numbered.current]
  current := Nat.le_trans h.current (Nat.le_of_lt h.numbered.current)
  held := h.held
  depth := h.depth

theorem release (h : Carries name resolution floor depth reader) (hdepth : 0 < depth) :
    Carries name resolution floor (depth - 1) (reader.take .release) := by
  obtain ⟨scopes, current, held, uses⟩ := reader
  obtain ⟨depth, rfl⟩ : ∃ less, depth = less + 1 := ⟨depth - 1, by omega⟩
  have hnumbered := h.numbered.move .release
  cases held with
  | nil => exact absurd h.depth (by simp)
  | cons scope held =>
    have hheld := List.forall_mem_cons.1 h.held
    exact ⟨hnumbered, h.meaning, hheld.1, hheld.2, Nat.le_of_succ_le_succ h.depth⟩

theorem swap (h : Carries name resolution floor depth reader) (hdepth : 0 < depth) :
    Carries name resolution floor depth (reader.take .swap) := by
  obtain ⟨scopes, current, held, uses⟩ := reader
  obtain ⟨depth, rfl⟩ : ∃ less, depth = less + 1 := ⟨depth - 1, by omega⟩
  have hnumbered := h.numbered.move .swap
  cases held with
  | nil => exact absurd h.depth (by simp)
  | cons scope held =>
    have hheld := List.forall_mem_cons.1 h.held
    exact ⟨hnumbered, h.meaning, hheld.1, List.forall_mem_cons.2 ⟨h.current, hheld.2⟩, h.depth⟩

theorem bind (h : Carries name resolution floor depth reader) (binder : Binder) {other : String}
    (hother : other ≠ name) (id : NodeId) :
    Carries name resolution floor depth (reader.take (.bind binder other id)) where
  numbered := h.numbered.move (.bind binder other id)
  meaning := by
    intro scope hfloor hsize
    refine (meaning_modify_of_ne hother.symm reader.current scope _).trans ?_
    exact h.meaning scope hfloor (Nat.lt_of_lt_of_eq hsize (Array.size_modify ..))
  current := h.current
  held := h.held
  depth := h.depth

/-- Inside the scope, the name has its meaning wherever a name occurs. -/
theorem places (h : Carries name resolution floor depth reader) {events : List Event}
    (hwithin : Within depth events)
    (hbinds : ∀ binder id, .bind binder name id ∉ events) :
    ∀ place ∈ ScopeReader.reading.places reader events,
      ScopeReader.reading.meaning place.state name = some resolution := by
  induction events generalizing reader depth with
  | nil => exact List.forall_mem_nil _
  | cons event rest ih =>
    have hrest : ∀ binder id, Event.bind binder name id ∉ rest :=
      fun binder id hmem => hbinds binder id (List.mem_cons_of_mem _ hmem)
    cases event with
    | use role other id =>
      refine List.forall_mem_cons.2 ⟨?_, ih h hwithin hrest⟩
      exact h.meaning reader.current h.current h.numbered.current
    | hold => exact ih h.hold hwithin hrest
    | «open» => exact ih h.open hwithin hrest
    | release => exact ih (h.release hwithin.1) hwithin.2 hrest
    | swap => exact ih (h.swap hwithin.1) hwithin.2 hrest
    | bind binder other id =>
      have hother : other ≠ name := fun heq =>
        hbinds binder id (heq ▸ List.mem_cons_self)
      exact ih (h.bind binder hother id) hwithin hrest
    | effect => exact ih h hwithin hrest

end Carries

/-! ### Readers side by side -/

/-- Which names and declarations a comparison leaves out: names that mean something new, and declarations that are gone. -/
structure Exempt where
  names : String → Prop
  gone : Resolution → Prop

/-- Whether two scopes bind the names under comparison alike. -/
def Agrees (exempt : Exempt) (data data' : ScopeData) : Prop :=
  ∀ name, ¬ exempt.names name → (∀ resolution, data.find? name = some resolution →
    ¬ exempt.gone resolution) → data'.find? name = data.find? name

theorem Agrees.refl (exempt : Exempt) (data : ScopeData) : Agrees exempt data data :=
  fun _ _ _ => rfl

/-- Binding a name alike in both scopes. -/
theorem Agrees.insert {exempt : Exempt} {data data' : ScopeData} (h : Agrees exempt data data')
    (name : String) (resolution : Resolution) :
    Agrees exempt (data.insert name resolution) (data'.insert name resolution) := by
  intro other hother hgone
  rw [ScopeData.find?_insert] at hgone ⊢
  rw [ScopeData.find?_insert]
  split
  next => rfl
  next hne =>
    rw [if_neg hne] at hgone
    exact h other hother hgone

/-- Binding an exempt name in the second scope. -/
theorem Agrees.insert_right {exempt : Exempt} {data data' : ScopeData}
    (h : Agrees exempt data data') {name : String} (hname : exempt.names name)
    (resolution : Resolution) : Agrees exempt data (data'.insert name resolution) := by
  intro other hother hgone
  rw [ScopeData.find?_insert, if_neg fun heq : other = name => hother (heq ▸ hname)]
  exact h other hother hgone

/-- Binding a name in the first scope to a declaration that is gone. -/
theorem Agrees.insert_left {exempt : Exempt} {data data' : ScopeData}
    (h : Agrees exempt data data') {resolution : Resolution} (hgone : exempt.gone resolution)
    (name : String) : Agrees exempt (data.insert name resolution) data' := by
  intro other hother hnot
  rw [ScopeData.find?_insert] at hnot ⊢
  split
  next heq => exact absurd hgone (hnot resolution (if_pos heq))
  next hne =>
    rw [if_neg hne] at hnot
    exact h other hother hnot

/-- Where the scopes of one reader stand in another: each opens one place after the last, except that the second may have opened more before the comparison starts. -/
structure Placement where
  place : Nat → Nat
  injective : ∀ {scope other}, place scope = place other → scope = other
  succ : ∀ scope, 0 < scope → place (scope + 1) = place scope + 1

/-- Whether names mean in a scope what they mean in another: it is this scope, or an empty one inside it in which nothing is bound later. -/
def Leads (placement : Placement) (scopes : Array ScopeData) (target scope : Nat) : Prop :=
  scope = target ∨ (scopes[scope]? = some ⟨some target, []⟩ ∧ ∀ other, placement.place other ≠ scope)

/-- Whether the parent of a scope stands where the parent of another does. -/
def SameParent (placement : Placement) (scopes : Array ScopeData) (data data' : ScopeData) : Prop :=
  (data.parent = none ∧ data'.parent = none) ∨ ∃ parent parent', data.parent = some parent ∧
    data'.parent = some parent' ∧ Leads placement scopes (placement.place parent) parent'

/-- Whether two readers agree, scope by scope. -/
structure Aligned (exempt : Exempt) (placement : Placement) (reader reader' : ScopeReader) :
    Prop where
  numbered : Numbered reader
  numbered' : Numbered reader'
  current : reader'.current = placement.place reader.current
  held : reader'.held = reader.held.map placement.place
  size : reader'.scopes.size = placement.place reader.scopes.size
  scopes : ∀ scope data, reader.scopes[scope]? = some data → ∃ data',
    reader'.scopes[placement.place scope]? = some data' ∧ Agrees exempt data data' ∧
      SameParent placement reader'.scopes data data'

theorem Leads.meaning_eq {placement : Placement} {scopes : Array ScopeData} {target scope : Nat}
    (h : Leads placement scopes target scope) (hordered : Ordered scopes) (name : String) :
    meaning scopes scope name = meaning scopes target name := by
  rcases h with rfl | ⟨hdata, -⟩
  · rfl
  · rw [Scope.meaning_eq hordered hdata, ScopeData.find?_nil, Option.none_or, Option.bind_some]

theorem SameParent.of_agreeing {placement : Placement} {scopes scopes' : Array ScopeData}
    {data data' : ScopeData} (h : SameParent placement scopes data data')
    (hscopes : ∀ scope target, (∀ other, placement.place other ≠ scope) →
      scopes[scope]? = some ⟨some target, []⟩ → scopes'[scope]? = some ⟨some target, []⟩) :
    SameParent placement scopes' data data' := by
  rcases h with h | ⟨parent, parent', hparent, hparent', hleads⟩
  · exact .inl h
  · refine .inr ⟨parent, parent', hparent, hparent', ?_⟩
    rcases hleads with h | ⟨hdata, hplace⟩
    · exact .inl h
    · exact .inr ⟨hscopes _ _ hplace hdata, hplace⟩

namespace Aligned

variable {exempt : Exempt} {placement : Placement} {reader reader' : ScopeReader}

/-- Names under comparison mean the same in both readers. -/
theorem meaning_eq (h : Aligned exempt placement reader reader') {name : String}
    (hname : ¬ exempt.names name) {scope : Nat} (hscope : scope < reader.scopes.size)
    (hgone : ∀ resolution, meaning reader.scopes scope name = some resolution →
      ¬ exempt.gone resolution) :
    meaning reader'.scopes (placement.place scope) name = meaning reader.scopes scope name := by
  induction scope using Nat.strongRecOn with
  | ind scope ih =>
    have hdata : reader.scopes[scope]? = some reader.scopes[scope] :=
      Array.getElem?_eq_getElem hscope
    obtain ⟨data', hdata', hagrees, hparents⟩ := h.scopes scope _ hdata
    have hmeaning := Scope.meaning_eq h.numbered.ordered hdata name
    rw [hmeaning] at hgone
    rw [Scope.meaning_eq h.numbered'.ordered hdata' name, hmeaning]
    have hfind : data'.find? name = reader.scopes[scope].find? name := by
      refine hagrees name hname fun resolution hresolution => hgone resolution ?_
      rw [hresolution]
      rfl
    rw [hfind]
    cases hfound : reader.scopes[scope].find? name with
    | some resolution => rfl
    | none =>
      rw [hfound] at hgone
      simp only [Option.none_or] at hgone ⊢
      rcases hparents with ⟨hparent, hparent'⟩ | ⟨parent, parent', hparent, hparent', hleads⟩
      · rw [hparent, hparent']
        rfl
      · have hlt : parent < scope := h.numbered.ordered scope _ parent hdata hparent
        rw [hparent] at hgone ⊢
        rw [hparent', Option.bind_some, Option.bind_some,
          hleads.meaning_eq h.numbered'.ordered]
        exact ih parent hlt (Nat.lt_trans hlt hscope) hgone

theorem «open» (h : Aligned exempt placement reader reader') :
    Aligned exempt placement (reader.take .open) (reader'.take .open) := by
  have hpos : 0 < reader.scopes.size := Nat.lt_of_le_of_lt (Nat.zero_le _) h.numbered.current
  have hkept : ∀ (scope : Nat) (data : ScopeData), reader'.scopes[scope]? = some data →
      (reader'.scopes.push ⟨some reader'.current, []⟩)[scope]? = some data := by
    intro scope data hdata
    obtain ⟨hlt, -⟩ := Array.getElem?_eq_some_iff.1 hdata
    rw [getElem?_push_of_lt hlt, hdata]
  refine ⟨h.numbered.move .open, h.numbered'.move .open, h.size, h.held, ?_, ?_⟩
  · change (reader'.scopes.push _).size = placement.place (reader.scopes.push _).size
    rw [Array.size_push, Array.size_push, placement.succ _ hpos, h.size]
  · intro scope data hdata
    change (reader.scopes.push _)[scope]? = some data at hdata
    rw [Array.getElem?_push] at hdata
    split at hdata
    next heq =>
      cases hdata
      refine ⟨⟨some reader'.current, []⟩, ?_, .refl exempt _, .inr ⟨_, _, rfl, rfl, .inl ?_⟩⟩
      · change (reader'.scopes.push _)[placement.place scope]? = _
        rw [heq, ← h.size, Array.getElem?_push_size]
      · exact h.current
    next =>
      obtain ⟨data', hdata', hagrees, hparents⟩ := h.scopes scope data hdata
      exact ⟨data', hkept _ _ hdata', hagrees,
        hparents.of_agreeing fun other target _ => hkept other _⟩

/-- Binding names in both current scopes, so that they still agree. -/
theorem bind (h : Aligned exempt placement reader reader') {binder binder' : Binder}
    {name name' : String} {id id' : NodeId}
    (hbind : ∀ data data', Agrees exempt data data' →
      Agrees exempt (data.insert name (binder.resolution id))
        (data'.insert name' (binder'.resolution id'))) :
    Aligned exempt placement (reader.take (.bind binder name id))
      (reader'.take (.bind binder' name' id')) := by
  have hkept : ∀ (scope target : Nat), (∀ other, placement.place other ≠ scope) →
      reader'.scopes[scope]? = some ⟨some target, []⟩ →
      (reader'.take (.bind binder' name' id')).scopes[scope]? = some ⟨some target, []⟩ := by
    intro scope target hplace hdata
    change (reader'.scopes.modify reader'.current _)[scope]? = _
    rw [Array.getElem?_modify, if_neg, hdata]
    rw [h.current]
    exact hplace reader.current
  refine ⟨h.numbered.move (.bind binder name id), h.numbered'.move (.bind binder' name' id'), h.current,
    h.held, ?_, ?_⟩
  · change (reader'.scopes.modify _ _).size = placement.place (reader.scopes.modify _ _).size
    rw [Array.size_modify, Array.size_modify, h.size]
  · intro scope data hdata
    change (reader.scopes.modify reader.current _)[scope]? = some data at hdata
    change ∃ data', (reader'.scopes.modify reader'.current _)[placement.place scope]? = _ ∧ _
    rw [Array.getElem?_modify] at hdata
    split at hdata
    next heq =>
      obtain ⟨old, hold, rfl⟩ := Option.map_eq_some_iff.1 hdata
      obtain ⟨old', hold', hagrees, hparents⟩ := h.scopes scope old hold
      refine ⟨old'.insert name' (binder'.resolution id'), ?_, hbind _ _ hagrees, ?_⟩
      · rw [Array.getElem?_modify, if_pos (by rw [h.current, heq]), hold']
        rfl
      · exact @SameParent.of_agreeing placement _ _ old old' hparents hkept
    next hne =>
      obtain ⟨data', hdata', hagrees, hparents⟩ := h.scopes scope data hdata
      refine ⟨data', ?_, hagrees, hparents.of_agreeing hkept⟩
      rw [Array.getElem?_modify, if_neg, hdata']
      rw [h.current]
      exact fun heq => hne (placement.injective heq)

theorem hold (h : Aligned exempt placement reader reader') :
    Aligned exempt placement (reader.take .hold) (reader'.take .hold) := by
  refine ⟨h.numbered.move .hold, h.numbered'.move .hold, h.current, ?_, h.size, h.scopes⟩
  change reader'.current :: reader'.held = (reader.current :: reader.held).map placement.place
  rw [h.current, h.held, List.map_cons]

/-- No event tells two readers apart. -/
theorem move (h : Aligned exempt placement reader reader') (event : Event) :
    Aligned exempt placement (ScopeReader.reading.move reader event)
      (ScopeReader.reading.move reader' event) := by
  cases event with
  | hold => exact h.hold
  | «open» => exact h.open
  | bind binder name id => exact h.bind fun data data' hagrees => hagrees.insert _ _
  | use role name id => exact h
  | effect => exact h
  | release =>
    have hnumbered := h.numbered.move .release
    have hnumbered' := h.numbered'.move .release
    obtain ⟨scopes, current, held, uses⟩ := reader
    obtain ⟨scopes', current', held', uses'⟩ := reader'
    obtain rfl : held' = held.map placement.place := h.held
    cases held with
    | nil => exact h
    | cons scope held => exact ⟨hnumbered, hnumbered', rfl, rfl, h.size, h.scopes⟩
  | swap =>
    have hnumbered := h.numbered.move .swap
    have hnumbered' := h.numbered'.move .swap
    obtain ⟨scopes, current, held, uses⟩ := reader
    obtain ⟨scopes', current', held', uses'⟩ := reader'
    obtain rfl : held' = held.map placement.place := h.held
    obtain rfl : current' = placement.place current := h.current
    cases held with
    | nil => exact h
    | cons scope held => exact ⟨hnumbered, hnumbered', rfl, rfl, h.size, h.scopes⟩

/-- A name under comparison means the same where it occurs. -/
theorem refers (h : Aligned exempt placement reader reader') {name : String}
    (hname : ¬ exempt.names name)
    (hgone : ∀ resolution, ScopeReader.reading.meaning reader name = some resolution →
      ¬ exempt.gone resolution) :
    ScopeReader.reading.meaning reader' name = ScopeReader.reading.meaning reader name := by
  have hmeaning := h.meaning_eq hname h.numbered.current hgone
  rw [← h.current] at hmeaning
  exact hmeaning

end Aligned

end AdviceMigration.Scope
