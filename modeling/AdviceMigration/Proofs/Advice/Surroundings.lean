import AdviceMigration.Proofs.Advice.FreshNames
import AdviceMigration.Proofs.Advice.Intact
import AdviceMigration.Proofs.Scope.Standing

/-!
# The surroundings of a body

When parameters make way for a carrier, the body of the method stands among other names than before. The names that occur in it are either names of parameters that go, which are spelled anew, or mean around the new body what they meant around the old one. The carrier is found under its name unless something in the body hides it.
-/

namespace AdviceMigration.Scope

open AdviceMigration.Source

/-! ### Names around a body -/

/-- What names mean where only parameters are declared. -/
def paramNames (params : List Param) : Names :=
  fun name => (params.find? (·.name == name)).map fun param => .param param.id

theorem paramNames_of_mem {params : List Param} (hnodup : (params.map (·.name)).Nodup)
    {param : Param} (hmem : param ∈ params) :
    paramNames params param.name = some (.param param.id) := by
  rw [paramNames, find?_id_of_mem hnodup hmem]
  rfl

theorem paramNames_eq_none {params : List Param} {name : String}
    (h : ∀ param ∈ params, param.name ≠ name) : paramNames params name = none := by
  rw [paramNames, Option.map_eq_none_iff, List.find?_eq_none]
  simpa using h

theorem names_after_paramEvents {params : List Param} (hnodup : (params.map (·.name)).Nodup)
    {reader : ScopeReader} (h : Numbered reader) (name : String) :
    (ScopeReader.reading.after reader (paramEvents params)).names name =
      (paramNames params name).or (reader.names name) := by
  induction params generalizing reader with
  | nil => rfl
  | cons param rest ih =>
    rw [List.map_cons, List.nodup_cons] at hnodup
    have hrest := ih hnodup.2 (h.move (.bind .methodParam param.name param.id))
    refine hrest.trans ?_
    change (paramNames rest name).or ((reader.take (.bind .methodParam param.name param.id)).names
      name) = _
    rw [ScopeReader.names_bind h, Names.set]
    by_cases hname : name = param.name
    · have hnone : paramNames rest name = none := by
        refine paramNames_eq_none fun other hother heq => hnodup.1 ?_
        rw [← hname, ← heq]
        exact List.mem_map_of_mem hother
      rw [if_pos hname, hnone, hname, paramNames, List.find?_cons_of_pos (by simp)]
      rfl
    · rw [if_neg hname, paramNames, paramNames, List.find?_cons_of_neg]
      simpa using Ne.symm hname

/-- The reader at the start of the body of a method. -/
def inBody (params : List Param) : ScopeReader :=
  ScopeReader.reading.after .start (paramEvents params ++ [.hold, .open])

theorem numbered_inBody (params : List Param) : Numbered (inBody params) :=
  numbered_start.after _

theorem inBody_last (params : List Param) :
    (inBody params).current + 1 = (inBody params).scopes.size := by
  rw [inBody, Reading.after_append]
  exact (Array.size_push _).symm

theorem names_inBody {params : List Param} (hnodup : (params.map (·.name)).Nodup) :
    (inBody params).names = paramNames params := by
  have hnumbered := numbered_start.after (paramEvents params)
  have hopen := ScopeReader.names_open (hnumbered.move .hold)
  funext name
  rw [inBody, Reading.after_append]
  refine (congrFun hopen name).trans ?_
  refine (names_after_paramEvents hnodup numbered_start name).trans ?_
  exact Option.or_none

theorem placesOf_eq {method : Method} {body : Block} (h : method.body = some body) :
    Advice.placesOf method =
      ScopeReader.reading.places (inBody method.params) body.innerEvents := by
  rw [Advice.placesOf, places_eventsOf, h, Block.eventsOption, Block.events_eq, enclosed, inBody,
    Reading.after_append, Reading.places_append, Reading.places_append]
  exact List.append_nil _

/-- The reader in the scope of a variable that is declared first in the body. -/
def afterFirst (params : List Param) (name : String) (id : NodeId) : ScopeReader :=
  ((inBody params).take .open).take (.bind .variable name id)

theorem numbered_afterFirst (params : List Param) (name : String) (id : NodeId) :
    Numbered (afterFirst params name id) :=
  ((numbered_inBody params).move .open).move (.bind .variable name id)

theorem afterFirst_last (params : List Param) (name : String) (id : NodeId) :
    (afterFirst params name id).current + 1 = (afterFirst params name id).scopes.size := by
  change (inBody params).scopes.size + 1 = (((inBody params).take .open).scopes.modify _ _).size
  rw [Array.size_modify]
  exact (Array.size_push _).symm

theorem names_afterFirst {params : List Param} (hnodup : (params.map (·.name)).Nodup)
    (name : String) (id : NodeId) :
    (afterFirst params name id).names = (paramNames params).set name (.variable id) := by
  have hnumbered := numbered_inBody params
  have hopened : Numbered ((inBody params).take .open) := hnumbered.move .open
  rw [afterFirst, ScopeReader.names_bind hopened, ScopeReader.names_open hnumbered,
    names_inBody hnodup]
  rfl

/-! ### Names from before -/

/-- Whether an event moves between scopes, binds a name, or is an occurrence from before an identity was drawn. -/
def Event.isOlder (next : NodeId) : Event → Bool
  | .use _ _ id => id < next
  | .effect => false
  | _ => true

theorem after_filter_isOlder {State : Type} (reading : Reading State) (next : NodeId) (state : State)
    (events : List Event) :
    reading.after state (events.filter (Event.isOlder next)) = reading.after state events := by
  induction events generalizing state with
  | nil => rfl
  | cons event rest ih =>
    cases event with
    | use role name id =>
      by_cases hid : id < next
      · rw [List.filter_cons_of_pos (by simpa [Event.isOlder] using hid)]
        exact ih state
      · rw [List.filter_cons_of_neg (by simpa [Event.isOlder] using hid)]
        exact ih state
    | effect => exact ih state
    | _ => exact ih _

/-- Names that occur later, and effects, make no difference to where names occurred before. -/
theorem places_filter_isOlder {State : Type} (reading : Reading State) (next : NodeId) (state : State)
    (events : List Event) : reading.places state (events.filter (Event.isOlder next)) =
      (reading.places state events).filter fun place => place.id < next := by
  induction events generalizing state with
  | nil => rfl
  | cons event rest ih =>
    cases event with
    | use role name id =>
      by_cases hid : id < next
      · rw [List.filter_cons_of_pos (by simpa [Event.isOlder] using hid)]
        simp only [Reading.places]
        rw [List.filter_cons_of_pos (by simpa using hid), ih]
      · rw [List.filter_cons_of_neg (by simpa [Event.isOlder] using hid)]
        simp only [Reading.places]
        rw [List.filter_cons_of_neg (by simpa using hid), ih]
    | effect => exact ih state
    | _ => exact ih _

theorem resolve?_eq_find? (method : Method) (id : NodeId) :
    (BodyScopes.ofMethod method).resolve? id =
      ((Advice.placesOf method).find? fun place => place.id == id).bind fun place =>
        place.state.names place.name := by
  have hreferences := BodyScopes.map_uses_ofMethod method
  rw [BodyScopes.referencesOf, Reading.references] at hreferences
  have hfind := congrArg (fun references => (references.find? fun reference =>
    reference.id == id).bind (·.resolution)) hreferences
  simp only [List.find?_map, Option.bind_map] at hfind
  exact hfind

/-- What an occurrence from before refers to. -/
theorem resolve?_of_older {method : Method} {next : NodeId} {places : List (Place ScopeReader)}
    (h : (Advice.placesOf method).filter (fun place => place.id < next) = places)
    (hnodup : (places.map (·.id)).Nodup) {place : Place ScopeReader} (hmem : place ∈ places) :
    (BodyScopes.ofMethod method).resolve? place.id = place.state.names place.name := by
  rw [← h] at hmem
  have holder : place.id < next := of_decide_eq_true (List.mem_filter.1 hmem).2
  rw [h] at hmem
  have hfind : (Advice.placesOf method).find? (fun other => other.id == place.id) = some place := by
    rw [← find?_id_of_mem hnodup hmem, ← h, List.find?_filter]
    congr 1
    funext other
    by_cases hid : other.id = place.id <;> simp [hid, holder]
  rw [resolve?_eq_find?, hfind, Option.bind_some]

end AdviceMigration.Scope

namespace AdviceMigration.Advice

open AdviceMigration.Source AdviceMigration.Scope

/-! ### The same body among other names -/

/-- Whether names around a new body serve the occurrences of the old one: the carrier is found under its name, and a name that occurs means what it meant unless it was that of a removed parameter. -/
structure Serves (method : Method) (removed : List NodeId) (var : String) (carrier : Resolution)
    (around : Names) : Prop where
  carrier : around var = some carrier
  kept : ∀ place ∈ placesOf method,
    (∀ found, paramNames method.params place.name = some found → found.decl ∉ removed) →
      around place.name = paramNames method.params place.name

/-- What a body declares is no parameter of its method. -/
theorem not_param_of_inside {method : Method} {body : Block} (hbody : method.body = some body)
    (hdistinct : Distinct method.mentions) {place : Place ScopeReader}
    (hplace : place ∈ ScopeReader.reading.places .start body.innerEvents) {name : String}
    {found : Resolution} (h : place.state.names name = some found) :
    ∀ param ∈ method.params, param.id ≠ found.decl := by
  have hbinds : Binds (fun found => ∀ param ∈ method.params, param.id ≠ found.decl) place.state := by
    refine (Binds.start _).places (fun binder bound id hbind param hparam heq => ?_) place hplace
    refine hdistinct.not_bind_param hparam binder bound ?_
    rw [heq, Binder.decl_resolution, hbody, Block.eventsOption, Block.events_eq, enclosed]
    exact List.mem_append_left _ (List.mem_append_right _ hbind)
  exact hbinds.meaning h

/-- Where the names of a body occur among other names, and what they mean there. -/
theorem places_served {method : Method} {body : Block} (hbody : method.body = some body)
    (hdistinct : Distinct method.mentions) (hnames : (method.params.map (·.name)).Nodup)
    {removed : List NodeId} (hremoved : removed ⊆ method.params.map (·.id)) {var : String}
    {carrier : Resolution} {around : ScopeReader} (hnumbered : Numbered around)
    (hlast : around.current + 1 = around.scopes.size)
    (h : Serves method removed var carrier around.names) :
    List.Forall₂ (fun place place' => place'.id = place.id ∧ place'.name = place.name ∧
        ((∀ param ∈ removed, ¬ Means place.state place.name param) →
          place'.state.names place.name = place.state.names place.name) ∧
        ((∀ decl, Means place.state var decl → decl ∈ removed) →
          place'.state.names var = some carrier))
      (placesOf method) (ScopeReader.reading.places around body.innerEvents) := by
  have hwithin := body.phrase_innerEvents.within 0 [] (by simp) trivial
  rw [List.append_nil] at hwithin
  rw [placesOf_eq hbody]
  refine (forall₂_and_mem (places_around (numbered_inBody method.params) hnumbered
    (inBody_last method.params) hlast hwithin)).imp ?_
  rintro place place' ⟨⟨hid, hname, inside, hinside, hbefore, hafter⟩, hplace, -⟩
  rw [names_inBody hnames] at hbefore
  refine ⟨hid, hname, fun hnone => ?_, fun hvar => ?_⟩
  · rw [hbefore, hafter]
    cases hfound : inside.state.names place.name with
    | some found => rfl
    | none =>
      refine h.kept place (by rwa [placesOf_eq hbody]) fun found houter hgone => ?_
      refine hnone found.decl hgone ⟨found, ?_, rfl⟩
      exact (hbefore place.name).trans (by rw [hfound, houter]; rfl)
  · rw [hafter, h.carrier]
    cases hfound : inside.state.names var with
    | none => rfl
    | some found =>
      -- The body itself declares the name, and what it declares is none of the parameters.
      have hmeans : Means place.state var found.decl :=
        ⟨found, (hbefore var).trans (by rw [hfound]; rfl), rfl⟩
      obtain ⟨param, hparam, hid⟩ := List.mem_map.1 (hremoved (hvar _ hmeans))
      exact absurd hid (not_param_of_inside hbody hdistinct hinside hfound param hparam)

/-! ### Names around the new body -/

theorem paramNames_append {params extra : List Param} {name : String}
    (h : ∀ param ∈ extra, param.name ≠ name) :
    paramNames (params ++ extra) name = paramNames params name := by
  have hnone : extra.find? (·.name == name) = none := by
    rw [List.find?_eq_none]
    simpa using h
  rw [paramNames, List.find?_append, hnone, Option.or_none, paramNames]

/-- The parameters of a method without some of them. -/
def keptParams (method : Method) (removed : List NodeId) : List Param :=
  method.params.filter fun param => !removed.contains param.id

theorem nodup_keptParams {method : Method} (hnames : (method.params.map (·.name)).Nodup)
    (removed : List NodeId) : ((keptParams method removed).map (·.name)).Nodup :=
  hnames.sublist (List.filter_sublist.map _)

theorem mem_keptParams {method : Method} {removed : List NodeId} {param : Param} :
    param ∈ keptParams method removed ↔ param ∈ method.params ∧ param.id ∉ removed := by
  simp [keptParams]

/-- A name that occurs is taken, unless it means a parameter that goes; without that parameter it means what it meant. -/
theorem kept_of_place {method : Method} (hnames : (method.params.map (·.name)).Nodup)
    {removed : List NodeId} {place : Place ScopeReader} (hplace : place ∈ placesOf method)
    (hkept : ∀ found, paramNames method.params place.name = some found → found.decl ∉ removed) :
    place.name ∈ TakenNames.ofMethod method removed ∧
      paramNames (keptParams method removed) place.name =
        paramNames method.params place.name := by
  have hgone : ∀ param ∈ method.params, param.name = place.name → param.id ∉ removed := by
    intro param hparam hname
    exact hkept _ (hname ▸ paramNames_of_mem hnames hparam)
  constructor
  · obtain ⟨role, huse⟩ := exists_use_of_mem (name_mem_of_place hplace)
    have hbody : .use role place.name place.id ∈ Block.eventsOption method.body := by
      rcases List.mem_append.1 huse with hmem | hmem
      · obtain ⟨param, -, heq⟩ := List.mem_map.1 hmem
        cases heq
      · exact hmem
    refine (TakenNames.mem_ofMethod_of_use hbody).resolve_right ?_
    rintro ⟨param, hparam, hid, hname⟩
    exact hgone param hparam hname hid
  · by_cases hfound : ∃ param ∈ method.params, param.name = place.name
    · obtain ⟨param, hparam, hname⟩ := hfound
      have hmem := mem_keptParams.2 ⟨hparam, hgone param hparam hname⟩
      rw [← hname, paramNames_of_mem hnames hparam,
        paramNames_of_mem (nodup_keptParams hnames removed) hmem]
    · have hnone : ∀ param ∈ method.params, param.name ≠ place.name :=
        fun param hparam hname => hfound ⟨param, hparam, hname⟩
      rw [paramNames_eq_none hnone,
        paramNames_eq_none fun param hparam => hnone param (mem_keptParams.1 hparam).1]

section Extra

variable {method : Method} (hnames : (method.params.map (·.name)).Nodup) {removed : List NodeId}
  {extra : List Param} (hextra : ∀ param ∈ extra, param.name ∉ TakenNames.ofMethod method removed)

include hnames hextra

/-- New parameters have names of their own if these are not taken. -/
theorem nodup_keptParams_append (hnodup : (extra.map (·.name)).Nodup) :
    ((keptParams method removed ++ extra).map (·.name)).Nodup := by
  rw [List.map_append, List.nodup_append]
  refine ⟨nodup_keptParams hnames removed, hnodup, ?_⟩
  rintro name hname name' hname' rfl
  obtain ⟨old, hold, hsame⟩ := List.mem_map.1 hname
  obtain ⟨param, hparam, hsame'⟩ := List.mem_map.1 hname'
  obtain ⟨hmem, hid⟩ := mem_keptParams.1 hold
  refine hextra param hparam ?_
  rw [hsame', ← hsame]
  exact TakenNames.mem_ofMethod_of_kept hmem hid

theorem paramNames_keptParams_append {place : Place ScopeReader} (hplace : place ∈ placesOf method)
    (hkept : ∀ found, paramNames method.params place.name = some found → found.decl ∉ removed) :
    paramNames (keptParams method removed ++ extra) place.name =
      paramNames method.params place.name := by
  obtain ⟨htaken, hsame⟩ := kept_of_place hnames hplace hkept
  rw [paramNames_append, hsame]
  intro param hparam heq
  exact hextra param hparam (heq ▸ htaken)

/-- The carrier in a variable that is declared first. -/
theorem serves_declared (hnodup : (extra.map (·.name)).Nodup) {var : String}
    (hvar : var ∉ TakenNames.ofMethod method removed) (id : NodeId) :
    Serves method removed var (.variable id)
      (afterFirst (keptParams method removed ++ extra) var id).names := by
  rw [names_afterFirst (nodup_keptParams_append hnames hextra hnodup)]
  refine ⟨if_pos rfl, fun place hplace hkept => ?_⟩
  have hother : place.name ≠ var := fun heq =>
    hvar (heq ▸ (kept_of_place hnames hplace hkept).1)
  rw [Names.set, if_neg hother]
  exact paramNames_keptParams_append hnames hextra hplace hkept

end Extra

/-- The carrier in a new parameter. -/
theorem serves_param {method : Method} (hnames : (method.params.map (·.name)).Nodup)
    {removed : List NodeId} {param : Param}
    (h : param.name ∉ TakenNames.ofMethod method removed) :
    Serves method removed param.name (.param param.id)
      (inBody (keptParams method removed ++ [param])).names := by
  have hextra : ∀ other ∈ [param], other.name ∉ TakenNames.ofMethod method removed := by
    simpa using h
  have hnodup := nodup_keptParams_append hnames hextra (List.nodup_singleton _)
  rw [names_inBody hnodup]
  exact ⟨paramNames_of_mem hnodup (by simp), fun place hplace hkept =>
    paramNames_keptParams_append hnames hextra hplace hkept⟩

end AdviceMigration.Advice
