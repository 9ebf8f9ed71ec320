import AdviceMigration.Proofs.Source.Respelling

/-!
# Reading events

Events are read one after the other: most of them change a state, a use looks a name up in it. What a use finds depends on the events before it that bind names or move between scopes, never on other uses. The readers of this library are readings in this sense.
-/

namespace AdviceMigration.Scope

open AdviceMigration.Source

theorem forall₂_and_mem {α β : Type} {R : α → β → Prop} {as : List α} {bs : List β}
    (h : List.Forall₂ R as bs) : List.Forall₂ (fun a b => R a b ∧ a ∈ as ∧ b ∈ bs) as bs := by
  induction h with
  | nil => exact .nil
  | cons hfirst _ ih =>
    refine .cons ⟨hfirst, List.mem_cons_self, List.mem_cons_self⟩ (ih.imp ?_)
    exact fun a b h => ⟨h.1, List.mem_cons_of_mem _ h.2.1, List.mem_cons_of_mem _ h.2.2⟩

theorem forall₂_comp {α β γ : Type} {R : α → β → Prop} {S : β → γ → Prop} {T : α → γ → Prop}
    (hcomp : ∀ a b c, R a b → S b c → T a c) {as : List α} {bs : List β} {cs : List γ}
    (h : List.Forall₂ R as bs) (h' : List.Forall₂ S bs cs) : List.Forall₂ T as cs := by
  induction h generalizing cs with
  | nil =>
    cases h'
    exact .nil
  | cons hab _ ih =>
    cases h' with
    | cons hbc hrest => exact .cons (hcomp _ _ _ hab hbc) (ih hrest)

/-- A way to read events: how an event changes the state, and what a name means in a state. -/
structure Reading (State : Type) where
  take : State → Event → State
  meaning : State → String → Option Resolution

/-- A place where a name occurs: the state it is looked up in, its identity and its spelling. -/
structure Place (State : Type) where
  state : State
  id : NodeId
  name : String

/-- The place with its name spelled anew. -/
def Place.respell {State : Type} (spelling : Spelling) (place : Place State) : Place State :=
  ⟨place.state, (spelling place.id place.name).id, (spelling place.id place.name).name⟩

/-- An occurrence of a name and what it refers to. -/
structure Reference where
  id : NodeId
  name : String
  resolution : Option Resolution
  deriving DecidableEq

namespace Reading

variable {State : Type} (reading : Reading State)

/-- The state after an event; a use or an effect leaves it alone. -/
def move (state : State) : Event → State
  | .use _ _ _ => state
  | .effect => state
  | .hold => reading.take state .hold
  | .open => reading.take state .open
  | .release => reading.take state .release
  | .swap => reading.take state .swap
  | .bind binder name id => reading.take state (.bind binder name id)

/-- The state after events. -/
def after (state : State) (events : List Event) : State :=
  events.foldl reading.move state

/-- The places where names occur, in order. -/
def places : State → List Event → List (Place State)
  | _, [] => []
  | state, .use _ name id :: rest => ⟨state, id, name⟩ :: places state rest
  | state, .hold :: rest => places (reading.move state .hold) rest
  | state, .open :: rest => places (reading.move state .open) rest
  | state, .release :: rest => places (reading.move state .release) rest
  | state, .swap :: rest => places (reading.move state .swap) rest
  | state, .bind binder name id :: rest => places (reading.move state (.bind binder name id)) rest
  | state, .effect :: rest => places state rest

/-- What the name at a place refers to. -/
def refer (place : Place State) : Reference :=
  ⟨place.id, place.name, reading.meaning place.state place.name⟩

/-- What the names in events refer to, in order. -/
def references (state : State) (events : List Event) : List Reference :=
  (reading.places state events).map reading.refer

@[simp] theorem after_nil (state : State) : reading.after state [] = state := rfl

@[simp] theorem after_cons (state : State) (event : Event) (rest : List Event) :
    reading.after state (event :: rest) = reading.after (reading.move state event) rest := rfl

@[simp] theorem after_append (state : State) (events events' : List Event) :
    reading.after state (events ++ events') =
      reading.after (reading.after state events) events' :=
  List.foldl_append

@[simp] theorem places_append (state : State) (events events' : List Event) :
    reading.places state (events ++ events') =
      reading.places state events ++ reading.places (reading.after state events) events' := by
  induction events generalizing state with
  | nil => rfl
  | cons event rest ih => cases event <;> simp [places, ih, move]

@[simp] theorem references_append (state : State) (events events' : List Event) :
    reading.references state (events ++ events') =
      reading.references state events ++
        reading.references (reading.after state events) events' := by
  simp [references]

@[simp] theorem references_nil (state : State) : reading.references state [] = [] := rfl

@[simp] theorem references_use (state : State) (role : Role) (name : String) (id : NodeId)
    (rest : List Event) : reading.references state (.use role name id :: rest) =
      ⟨id, name, reading.meaning state name⟩ :: reading.references state rest := rfl

/-- Names occur where the events use them. -/
theorem namesOf_eq (state : State) (events : List Event) :
    namesOf events = (reading.places state events).map fun place => (place.id, place.name) := by
  induction events generalizing state with
  | nil => rfl
  | cons event rest ih => cases event <;> simp [places, ← ih]

/-- Names spelled anew occur in the same states. -/
theorem places_respell (spelling : Spelling) (state : State) (events : List Event) :
    reading.places state (events.map (Event.respell spelling)) =
      (reading.places state events).map (Place.respell spelling) := by
  induction events generalizing state with
  | nil => rfl
  | cons event rest ih =>
    cases event with
    | use role name id =>
      rw [List.map_cons, Event.respell]
      split <;> simp_all [places, Place.respell]
    | _ => exact ih _

/-- Two runs over the same events, from states related in a way that no event breaks: the same names occur, in related states. -/
theorem places_related {related : State → State → Prop} {events : List Event}
    (hmove : ∀ event ∈ events, ∀ state state', related state state' →
      related (reading.move state event) (reading.move state' event))
    {state state' : State} (h : related state state') :
    List.Forall₂ (fun place place' => related place.state place'.state ∧ place'.id = place.id ∧
      place'.name = place.name) (reading.places state events) (reading.places state' events) := by
  induction events generalizing state state' with
  | nil => exact .nil
  | cons event rest ih =>
    have hrest := fun state state' => @ih (fun event hevent =>
      hmove event (List.mem_cons_of_mem _ hevent)) state state'
    cases event with
    | use role name id => exact .cons ⟨h, rfl, rfl⟩ (hrest _ _ h)
    | effect => exact hrest _ _ h
    | _ => exact hrest _ _ (hmove _ List.mem_cons_self _ _ h)

end Reading

/-! ### Scopes -/

namespace ScopeReader

/-- The reading that numbers scopes. -/
def reading : Reading ScopeReader where
  take := take
  meaning := fun reader name => lookup reader.scopes name (reader.current + 1) reader.current

/-- What the occurrence of a name refers to. -/
def referenceOf (occurrence : NameUse) : Reference :=
  ⟨occurrence.id, occurrence.name, occurrence.resolution⟩

theorem take_uses (reader : ScopeReader) (uses : List NameUse) (event : Event) :
    ∃ uses', take { reader with uses := uses } event =
        { reading.move reader event with uses := uses' } ∧
      uses'.map referenceOf = (reading.references reader [event]).reverse ++
        uses.map referenceOf := by
  cases event with
  | release =>
    obtain ⟨scopes, current, held, _⟩ := reader
    cases held <;> exact ⟨uses, rfl, rfl⟩
  | swap =>
    obtain ⟨scopes, current, held, _⟩ := reader
    cases held <;> exact ⟨uses, rfl, rfl⟩
  | _ => exact ⟨_, rfl, rfl⟩

/-- The occurrences noted by a reader are those of its reading, last first. -/
theorem foldl_take (events : List Event) (reader : ScopeReader) (uses : List NameUse) :
    ∃ uses', events.foldl take { reader with uses := uses } =
        { reading.after reader events with uses := uses' } ∧
      uses'.map referenceOf = (reading.references reader events).reverse ++
        uses.map referenceOf := by
  induction events generalizing reader uses with
  | nil => exact ⟨uses, rfl, rfl⟩
  | cons event rest ih =>
    obtain ⟨uses₁, htake, huses₁⟩ := take_uses reader uses event
    obtain ⟨uses₂, hfold, huses₂⟩ := ih (reading.move reader event) uses₁
    refine ⟨uses₂, by rw [List.foldl_cons, htake, hfold]; rfl, ?_⟩
    have happend := reading.references_append reader [event] rest
    rw [huses₂, huses₁, ← List.append_assoc, ← List.reverse_append]
    exact congrArg (fun references => references.reverse ++ uses.map referenceOf) happend.symm

end ScopeReader

namespace BodyScopes

/-- What the names of a method refer to, in order. -/
def referencesOf (method : Method) : List Reference :=
  ScopeReader.reading.references .start (eventsOf method)

theorem map_uses_ofMethod (method : Method) :
    (ofMethod method).uses.map ScopeReader.referenceOf = referencesOf method := by
  obtain ⟨uses, hfold, huses⟩ := ScopeReader.foldl_take (eventsOf method) .start []
  change ((eventsOf method).foldl ScopeReader.take .start).uses.reverse.map _ = _
  have hstart : ({ ScopeReader.start with uses := [] } : ScopeReader) = .start := rfl
  rw [hstart] at hfold
  rw [hfold, List.map_reverse, huses, List.map_nil, List.append_nil, List.reverse_reverse]
  rfl

theorem exists_use_iff {method : Method} {reference : Reference} :
    reference ∈ referencesOf method ↔
      ∃ occurrence ∈ (ofMethod method).uses, ScopeReader.referenceOf occurrence = reference := by
  rw [← map_uses_ofMethod, List.mem_map]

/-- An occurrence of a method whose occurrences have distinct identities is found by its identity. -/
theorem resolve?_of_mem {method : Method} (hnodup : ((referencesOf method).map (·.id)).Nodup)
    {reference : Reference} (hmem : reference ∈ referencesOf method) :
    (ofMethod method).resolve? reference.id = reference.resolution := by
  obtain ⟨occurrence, hoccurrence, rfl⟩ := exists_use_iff.1 hmem
  rw [← map_uses_ofMethod, List.map_map] at hnodup
  rw [resolve?, use?]
  have hfind : (ofMethod method).uses.find? (fun other => other.id == occurrence.id) =
      some occurrence := find?_id_of_mem hnodup hoccurrence
  exact congrArg (Option.bind · (·.resolution)) hfind

end BodyScopes

end AdviceMigration.Scope
