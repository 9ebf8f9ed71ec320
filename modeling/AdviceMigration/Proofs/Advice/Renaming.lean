import AdviceMigration.Proofs.Advice.References
import AdviceMigration.Proofs.Scope.Alignment

/-!
# Renaming a parameter

A parameter may be called anything that its method does not mention: once its references are replaced by the new name and its declaration carries it, every occurrence refers to what it referred to before. References to the parameter find it under the new name, which nothing else binds; all other names mean the same in the scopes of both methods.
-/

namespace AdviceMigration.Scope

open AdviceMigration.Source

/-- The name that an event binds or uses. -/
def Event.name? : Event → Option String
  | .bind _ name _ => some name
  | .use _ name _ => some name
  | .hold => none
  | .open => none
  | .release => none
  | .swap => none
  | .effect => none

/-- The names that a method mentions: those that occur in it and those of everything declared in it, its parameters included. -/
def BodyScopes.mentionedNames (method : Method) : List String :=
  (eventsOf method).filterMap Event.name?

theorem exists_use_of_mem {method : Method} {occurrence : NodeId × String}
    (hmem : occurrence ∈ method.names) :
    ∃ role, .use role occurrence.2 occurrence.1 ∈ BodyScopes.eventsOf method := by
  have hevents : ∀ events, occurrence ∈ namesOf events →
      ∃ role, Event.use role occurrence.2 occurrence.1 ∈ events := by
    intro events
    induction events with
    | nil => exact fun h => absurd h List.not_mem_nil
    | cons event rest ih =>
      have hrest : occurrence ∈ namesOf rest →
          ∃ role, Event.use role occurrence.2 occurrence.1 ∈ event :: rest := fun h =>
        let ⟨role, huse⟩ := ih h
        ⟨role, List.mem_cons_of_mem _ huse⟩
      cases event with
      | use role name id =>
        intro h
        rcases List.mem_cons.1 h with rfl | h
        · exact ⟨role, List.mem_cons_self⟩
        · exact hrest h
      | _ => exact hrest
  exact hevents _ hmem

/-- The events that bind the parameters of a method. -/
def paramEvents (params : List Param) : List Event :=
  params.map fun param => .bind .methodParam param.name param.id

theorem places_eventsOf (method : Method) :
    ScopeReader.reading.places .start (BodyScopes.eventsOf method) =
      ScopeReader.reading.places (ScopeReader.reading.after .start (paramEvents method.params))
        (Block.eventsOption method.body) := by
  rw [BodyScopes.eventsOf, ← paramEvents, Reading.places_append]
  have hnone : ∀ (params : List Param) (reader : ScopeReader),
      ScopeReader.reading.places reader (paramEvents params) = [] := by
    intro params
    induction params with
    | nil => exact fun _ => rfl
    | cons param rest ih => exact fun _ => ih _
  rw [hnone, List.nil_append]

/-- Parameters are all bound in one scope. -/
theorem after_paramEvents (params : List Param) (reader : ScopeReader) :
    let bound := ScopeReader.reading.after reader (paramEvents params)
    bound.current = reader.current ∧ bound.held = reader.held ∧
      bound.scopes.size = reader.scopes.size := by
  induction params generalizing reader with
  | nil => exact ⟨rfl, rfl, rfl⟩
  | cons param rest ih =>
    obtain ⟨hcurrent, hheld, hsize⟩ := ih (reader.take (.bind .methodParam param.name param.id))
    exact ⟨hcurrent, hheld, hsize.trans (Array.size_modify ..)⟩

end AdviceMigration.Scope

namespace AdviceMigration.Advice

open AdviceMigration.Source AdviceMigration.Scope

/-- The parameter under another name if it is the one to rename. -/
def renamed (id : NodeId) (name : String) (param : Param) : Param :=
  if param.id = id then { param with name := name } else param

/-- The method with one of its parameters renamed; references to it are left alone. -/
def renameParam (method : Method) (id : NodeId) (name : String) : Method :=
  { method with params := method.params.map (renamed id name) }

/-- Scopes in which a parameter goes by a new name are compared for all other names and declarations. -/
def exceptRenamed (param : NodeId) (name : String) : Exempt where
  names := fun other => other = name
  gone := fun resolution => resolution = .param param

/-- The same scopes at the same places. -/
def inPlace : Placement := ⟨id, fun h => h, fun _ _ => rfl⟩

theorem aligned_start (exempt : Exempt) : Aligned exempt inPlace .start .start := by
  refine ⟨numbered_start, numbered_start, rfl, rfl, rfl, ?_⟩
  intro scope data hdata
  refine ⟨data, hdata, .refl exempt data, ?_⟩
  cases scope with
  | zero =>
    cases hdata
    exact .inl ⟨rfl, rfl⟩
  | succ scope => cases hdata

/-- The scopes of the parameters before and after one of them is renamed. -/
theorem aligned_params (param : NodeId) (name : String) (params : List Param)
    {reader reader' : ScopeReader} (h : Aligned (exceptRenamed param name) inPlace reader reader') :
    Aligned (exceptRenamed param name) inPlace
      (ScopeReader.reading.after reader (paramEvents params))
      (ScopeReader.reading.after reader' (paramEvents (params.map (renamed param name)))) := by
  induction params generalizing reader reader' with
  | nil => exact h
  | cons first rest ih =>
    refine @ih (reader.take (.bind .methodParam first.name first.id))
      (reader'.take (.bind .methodParam _ _)) ?_
    rw [renamed]
    split
    next hid =>
      refine h.bind fun data data' hagrees => ?_
      exact (hagrees.insert_left (by rw [hid]; rfl) first.name).insert_right rfl _
    next => exact h.move (.bind .methodParam first.name first.id)

/-- The renamed parameter is what the new name means in the scope of the parameters. -/
theorem carries_params {method : Method} {param : Param} (hparam : param ∈ method.params)
    {name : String} (hname : ∀ other ∈ method.params, other.name ≠ name) :
    Carries name (.param param.id) 0 0 (ScopeReader.reading.after .start
      (paramEvents (method.params.map (renamed param.id name)))) := by
  obtain ⟨before, after, heq⟩ := List.append_of_mem hparam
  rw [heq] at hname ⊢
  have hself : renamed param.id name param = { param with name := name } := if_pos rfl
  rw [List.map_append, List.map_cons, hself, paramEvents, List.map_append, List.map_cons,
    Reading.after_append, Reading.after_cons]
  obtain ⟨hcurrent, hheld, hsize⟩ :=
    after_paramEvents (before.map (renamed param.id name)) .start
  have hbound := Carries.of_bind (numbered_start.after
    (paramEvents (before.map (renamed param.id name)))) (by rw [hcurrent, hsize]; rfl)
    .methodParam name param.id
  rw [hcurrent] at hbound
  -- A parameter after it has another name, or is bound to the same declaration again.
  have hafter : ∀ (rest : List Param) (reader : ScopeReader),
      (∀ other ∈ rest, other.name ≠ name) → Carries name (.param param.id) 0 0 reader →
      reader.current = 0 → reader.scopes.size = 1 →
      Carries name (.param param.id) 0 0 (ScopeReader.reading.after reader
        (paramEvents (rest.map (renamed param.id name)))) := by
    intro rest
    induction rest with
    | nil => exact fun _ _ h _ _ => h
    | cons other rest ih =>
      intro reader hother h hcurrent hsize
      obtain ⟨hne, hrest⟩ := List.forall_mem_cons.1 hother
      refine ih (reader.take (.bind .methodParam _ _)) hrest ?_ hcurrent
        ((Array.size_modify ..).trans hsize)
      rw [renamed]
      split
      next hid =>
        rw [hid]
        have hagain := Carries.of_bind h.numbered (by omega) .methodParam name param.id
        rwa [hcurrent] at hagain
      next => exact h.bind .methodParam hne other.id
  exact hafter after _ (fun other hother => hname other (by simp [hother])) hbound
    hcurrent (((Array.size_modify ..).trans hsize))

theorem mentioned_params {method : Method} {name : String}
    (hname : name ∉ BodyScopes.mentionedNames method) :
    ∀ other ∈ method.params, other.name ≠ name := by
  intro other hother heq
  refine hname (List.mem_filterMap.2 ⟨.bind .methodParam other.name other.id, ?_, congrArg some heq⟩)
  exact List.mem_append_left _ (List.mem_map.2 ⟨other, hother, rfl⟩)

theorem not_bind_mentioned {method : Method} {name : String}
    (hname : name ∉ BodyScopes.mentionedNames method) (binder : Binder) (id : NodeId) :
    .bind binder name id ∉ Block.eventsOption method.body := by
  intro hmem
  exact hname (List.mem_filterMap.2 ⟨_, List.mem_append_right _ hmem, rfl⟩)

/-- Where names occur in a method with respelled names and a renamed parameter. -/
theorem placesOf_renameParam (method : Method) (spelling : Spelling) (param : NodeId)
    (name : String) :
    placesOf (renameParam (method.respell spelling) param name) =
      (ScopeReader.reading.places (ScopeReader.reading.after .start
        (paramEvents (method.params.map (renamed param name))))
        (Block.eventsOption method.body)).map (Place.respell spelling) := by
  rw [placesOf, places_eventsOf, ← Reading.places_respell]
  congr 1
  cases hbody : method.body <;>
    simp [renameParam, Method.respell, hbody, Block.eventsOption, Block.events_respell]

/-- With distinct identities, what refers to a parameter refers to it as a parameter. -/
theorem eq_param_of_means {method : Method} (hdistinct : Distinct method.mentions) {param : Param}
    (hparam : param ∈ method.params) {place : Place ScopeReader} (hplace : place ∈ placesOf method)
    {name : String} {resolution : Resolution}
    (hmeaning : ScopeReader.reading.meaning place.state name = some resolution)
    (hdecl : resolution.decl = param.id) : resolution = .param param.id := by
  have hevents : ∀ binder bound id, .bind binder bound id ∈ BodyScopes.eventsOf method →
      (binder.resolution id).decl = param.id → binder.resolution id = .param param.id := by
    intro binder bound id hmem hid
    rcases List.mem_append.1 hmem with hmem | hmem
    · obtain ⟨other, -, heq⟩ := List.mem_map.1 hmem
      cases heq
      exact congrArg Resolution.param hid
    · obtain rfl : id = param.id := by cases binder <;> exact hid
      exact absurd hmem (hdistinct.not_bind_param hparam binder bound)
  have hbinds : Binds (fun resolution => resolution.decl = param.id →
      resolution = .param param.id) place.state := (Binds.start _).places hevents place hplace
  exact hbinds.meaning hmeaning hdecl

/-- What the names of a method refer to once a parameter is renamed, its references included. -/
theorem references_renameParam {method : Method} {next next' id : NodeId}
    (hdistinct : Distinct method.mentions) (hids : method.Identified next) {param : Param}
    (hparam : param ∈ method.params) {name : String}
    (hname : name ∉ BodyScopes.mentionedNames method) {spelling : Spelling}
    (hspelling : ∀ occurrence ∈ method.names, Replaces (BodyScopes.ofMethod method) param.id
      ⟨id, name, []⟩ next next' occurrence (spelling occurrence.1 occurrence.2)) :
    List.Forall₂ (fun reference reference' => reference'.resolution = reference.resolution ∧
      if reference.resolution = some (.param param.id) then reference'.name = name
      else reference'.id = reference.id ∧ reference'.name = reference.name)
      (BodyScopes.referencesOf method)
      (BodyScopes.referencesOf (renameParam (method.respell spelling) param.id name)) := by
  have haligned := aligned_params param.id name method.params
    (aligned_start (exceptRenamed param.id name))
  have hcarries := (carries_params hparam (mentioned_params hname)).places
    (((Block.phraseOption method.body).within 0 [] (by simp) trivial))
    (fun binder bound => by rw [List.append_nil]; exact not_bind_mentioned hname binder bound)
  rw [List.append_nil] at hcarries
  have hrelated := forall₂_and_mem (@Reading.places_related _ ScopeReader.reading _
    (Block.eventsOption method.body) (fun event _ _ _ h => h.move event) _ _ haligned)
  have hplaces := placesOf_renameParam method spelling param.id name
  rw [placesOf] at hplaces
  rw [BodyScopes.referencesOf, BodyScopes.referencesOf, Reading.references, Reading.references,
    hplaces, places_eventsOf, List.map_map, List.forall₂_map_left_iff, List.forall₂_map_right_iff]
  refine hrelated.imp ?_
  rintro place ⟨state', _, _⟩ ⟨⟨hstates, rfl, rfl⟩, hplace, hplace'⟩
  have hmem : place ∈ placesOf method := by rwa [placesOf, places_eventsOf]
  rcases hspelling _ (name_mem_of_place hmem) with ⟨hrefers, fresh, -, -, hspelled⟩ |
    ⟨hrefers, hspelled⟩
  · obtain ⟨resolution, hmeaning, hdecl⟩ := (refersTo_iff_means hids hmem).1 hrefers
    obtain rfl := eq_param_of_means hdistinct hparam hmem hmeaning hdecl
    have hcarried := hcarries _ hplace'
    dsimp only at hspelled hcarried
    simp only [Function.comp, Place.respell, Reading.refer, hspelled, hcarried, hmeaning]
    simp
  · have hnot : ∀ resolution, ScopeReader.reading.meaning place.state place.name =
        some resolution → ¬ (exceptRenamed param.id name).gone resolution := by
      rintro resolution hmeaning rfl
      exact hrefers ((refersTo_iff_means hids hmem).2 ⟨_, hmeaning, rfl⟩)
    have hother : place.name ≠ name := by
      intro heq
      obtain ⟨role, huse⟩ := exists_use_of_mem (name_mem_of_place hmem)
      exact hname (List.mem_filterMap.2 ⟨_, huse, congrArg some heq⟩)
    have hsame := hstates.refers hother hnot
    dsimp only at hspelled hsame
    simp only [Function.comp, Place.respell, Reading.refer, hspelled, hsame]
    simp [show ¬ ScopeReader.reading.meaning place.state place.name = some (.param param.id) from
      fun hmeaning => hnot _ hmeaning rfl]

/-- Renaming a parameter to a name that its method does not mention keeps what every occurrence refers to. -/
theorem uses_renameParam {method : Method} {next : NodeId} (hdistinct : Distinct method.mentions)
    (hbelow : ∀ mention ∈ method.mentions, mention.id < next) {param : Param}
    (hparam : param ∈ method.params) {name : String}
    (hname : name ∉ BodyScopes.mentionedNames method) (id : NodeId) :
    let scopes := BodyScopes.ofMethod method
    let replaced := ((replaceReferences method param.id (.name id name)).run next).1.1
    let scopes' := BodyScopes.ofMethod (renameParam replaced param.id name)
    List.Forall₂ (fun use use' => scopes'.resolve? use'.id = scopes.resolve? use.id ∧
      if scopes.resolve? use.id = some (.param param.id) then use'.name = name
      else use'.id = use.id ∧ use'.name = use.name) scopes.uses scopes'.uses := by
  intro scopes replaced scopes'
  have hids := Method.Identified.of_distinct hdistinct hbelow
  obtain ⟨spelling, count, next', hrun, -, hreplaces, hids'⟩ :=
    @run_replaceReferences method param.id ⟨id, name, []⟩ next hids
  have hreplaced : replaced = method.respell spelling := congrArg (fun run => run.1.1) hrun
  have hreferences := references_renameParam hdistinct hids hparam hname hreplaces
  rw [← hreplaced] at hreferences hids'
  have hrenamed : (renameParam replaced param.id name).Identified next' := hids'.of_body rfl
  have hresolved := (forall₂_and_mem hreferences).imp
    fun reference reference' h => (show scopes'.resolve? reference'.id =
        scopes.resolve? reference.id ∧
      if scopes.resolve? reference.id = some (.param param.id) then reference'.name = name
      else reference'.id = reference.id ∧ reference'.name = reference.name by
      rw [BodyScopes.resolve?_of_mem hrenamed.references_nodup h.2.2,
        BodyScopes.resolve?_of_mem hids.references_nodup h.2.1]
      exact h.1)
  rw [← BodyScopes.map_uses_ofMethod, ← BodyScopes.map_uses_ofMethod,
    List.forall₂_map_left_iff, List.forall₂_map_right_iff] at hresolved
  exact hresolved

/-- A parameter `x`. -/
def intParam : Param := ⟨1, [], [], .primitive .int, false, "x"⟩

/-- A method with the body `x = y; run(x -> x);`. -/
def shadowingMethod : Method :=
  ⟨0, .unwritten, [], [], [], some .void, "enter", [intParam], [],
    some (.ofStmts [.ofKind (.expr (.assign (.name 2 "x") .assign (.name 3 "y"))),
      .ofKind (.expr (.call none [] "run"
        [.lambda [⟨4, [], none, "x"⟩] false (.expr (.name 5 "x"))]))])⟩

/-- Only the reference to the parameter itself is renamed, not the one to the parameter of the lambda expression. -/
theorem uses_renameParam_shadowingMethod :
    let scopes := BodyScopes.ofMethod shadowingMethod
    let replaced := ((replaceReferences shadowingMethod 1 (.name 6 "z")).run 6).1.1
    let scopes' := BodyScopes.ofMethod (renameParam replaced 1 "z")
    scopes'.uses.map (·.name) = ["z", "y", "x"] ∧
      List.Forall₂ (fun use use' => scopes'.resolve? use'.id = scopes.resolve? use.id ∧
        if scopes.resolve? use.id = some (.param 1) then use'.name = "z"
        else use'.id = use.id ∧ use'.name = use.name) scopes.uses scopes'.uses := by
  have hdistinct : Distinct shadowingMethod.mentions := by
    rw [Distinct]
    decide
  exact ⟨by decide, @uses_renameParam shadowingMethod 6 hdistinct (by decide) intParam
    (List.mem_singleton.2 rfl) "z" (by decide) 6⟩

end AdviceMigration.Advice
