import AdviceMigration.Proofs.Advice.Dangling
import AdviceMigration.Proofs.Advice.Surroundings

/-!
# The carrier in place of parameters

Both advice methods read the values that are handed over from a carrier. A reference to one of the parameters becomes the carrier, or a field of it, and finds the declaration of the carrier; any other name keeps its spelling and what it refers to. This holds unless the name of the carrier means something else where the reference stands: a declaration of the body that the choice of the name does not look at, or a parameter that is replaced after the reference has become the carrier.
-/

namespace AdviceMigration.Advice

open AdviceMigration.Source AdviceMigration.Scope

/-! ### Values stored instead of returned -/

/-- Storing a value moves no name from before and opens no scope. -/
theorem filter_isOlder_storeReturn {target : Spelled} {body body' : Block} {path : StmtPath}
    {first next next' : NodeId} (hle : first ≤ next)
    (h : (AdviceLocals.storeReturn target.toExpr body path).run next = ((body', true), next')) :
    body'.innerEvents.filter (Event.isOlder first) = body.innerEvents.filter (Event.isOlder first) ∧
      next ≤ next' := by
  rw [AdviceLocals.storeReturn] at h
  split at h
  next value hvalue =>
    obtain ⟨ret, hstmt, hret⟩ := returnAt?_eq_some hvalue
    rw [Fresh.run_bind, Spelled.run_freshCopy] at h
    dsimp only at h
    split at h
    next inserted hinserted =>
      cases h
      refine ⟨?_, Nat.le_succ next⟩
      obtain ⟨blockPath, front, back, endComments, closing, stmt', ret', -, hblock, hstmt', hret',
        hupdate⟩ := insertBefore?_setReturn hstmt hinserted
      obtain ⟨block, block', before, after, hold, hnew, hbefore, hafter⟩ :=
        Block.events_updateBlock? hupdate
      rw [hblock] at hold
      cases hold
      cases hnew
      obtain ⟨role, hassign⟩ := exists_events_assign ⟨next, target.name, target.fields⟩ value
      have hstored : stmt'.events = [Event.effect, .use role target.name next] ++ value.events :=
        (Stmt.events_of_kind hstmt').trans hassign
      have hreturned : ret.events = value.events := Stmt.events_of_kind hret
      have hbare : ret'.events = [] := Stmt.events_of_kind hret'
      have hnewer : ¬ next < first := Nat.not_lt_of_le hle
      rw [hbefore, hafter]
      simp [Block.innerEvents, Stmt.eventsList_append, Stmt.eventsList, hstored, hreturned, hbare,
        Event.isOlder, hnewer]
    next => cases h
  next =>
    cases h
    exact ⟨rfl, Nat.le_refl _⟩

theorem filter_isOlder_storeReturnsAt {target : Spelled} (paths : List StmtPath)
    {body body' : Block} {first next next' : NodeId} (hle : first ≤ next)
    (h : (AdviceLocals.storeReturnsAt target.toExpr body paths).run next = ((body', true), next')) :
    body'.innerEvents.filter (Event.isOlder first) =
      body.innerEvents.filter (Event.isOlder first) := by
  induction paths generalizing body next with
  | nil =>
    cases h
    rfl
  | cons path rest ih =>
    rw [AdviceLocals.storeReturnsAt, Fresh.run_bind] at h
    split at h
    next middle hmiddle =>
      obtain ⟨hfirst, hle'⟩ := filter_isOlder_storeReturn hle (Prod.ext hmiddle rfl)
      exact (ih (Nat.le_trans hle hle') h).trans hfirst
    next => cases h

theorem filter_isOlder_storeReturns {locals : AdviceLocals} {var : String} {body body' : Block}
    {next next' : NodeId} (h : (locals.storeReturns var body).run next = ((body', true), next')) :
    body'.innerEvents.filter (Event.isOlder next) =
      body.innerEvents.filter (Event.isOlder next) := by
  rw [AdviceLocals.storeReturns] at h
  split at h
  next =>
    cases h
    rfl
  next enter henter =>
    rw [Fresh.run_bind, run_access] at h
    exact filter_isOlder_storeReturnsAt _ (Nat.le_succ next) h

/-! ### Fields -/

theorem nodup_of_repeatedKey? {seen keys : List String}
    (h : BoundMethod.repeatedKey? seen keys = none) :
    keys.Nodup ∧ ∀ key ∈ keys, key ∉ seen := by
  induction keys generalizing seen with
  | nil => exact ⟨List.nodup_nil, List.forall_mem_nil _⟩
  | cons key rest ih =>
    rw [BoundMethod.repeatedKey?] at h
    split at h
    next => cases h
    next hnew =>
      obtain ⟨hrest, hother⟩ := ih h
      refine ⟨List.nodup_cons.2 ⟨fun hmem => hother key hmem List.mem_cons_self, hrest⟩, ?_⟩
      refine List.forall_mem_cons.2 ⟨by simpa using hnew, fun other hmem hseen => ?_⟩
      exact hother other hmem (List.mem_cons_of_mem _ hseen)

theorem nodup_keys_of_sharedOnceOf {bound : Option BoundMethod}
    {shared : List (String × HandedParam)} (h : AdviceLocals.sharedOnceOf bound = .ok shared) :
    (shared.map (·.1)).Nodup := by
  cases bound with
  | none =>
    cases h
    exact List.nodup_nil
  | some bound =>
    rw [AdviceLocals.sharedOnceOf, BoundMethod.sharedOnce] at h
    split at h
    next => cases h
    next hnone =>
      cases h
      exact (nodup_of_repeatedKey? hnone).1

/-- The exit method shares no key that the enter method does not. -/
theorem keys_subset_of_create {enter exit : Option BoundMethod} {locals : AdviceLocals}
    (h : AdviceLocals.create enter exit = .ok locals) :
    locals.exit.map (·.1) ⊆ locals.enter.map (·.1) := by
  rw [AdviceLocals.create_eq] at h
  obtain ⟨enterShared, henter, h⟩ := except_bind_eq_ok.1 h
  obtain ⟨exitEnter, -, h⟩ := except_bind_eq_ok.1 h
  obtain ⟨exitShared, -, h⟩ := except_bind_eq_ok.1 h
  split at h
  next hmatch =>
    cases h
    rw [Bool.and_eq_true, beq_iff_eq] at hmatch
    have hsub : enterShared.map (·.1) ⊆ exitShared.map (·.1) := by
      intro key hkey
      obtain ⟨entry, hentry, rfl⟩ := List.mem_map.1 hkey
      obtain ⟨other, hother, heq⟩ := List.any_eq_true.1 (List.all_eq_true.1 hmatch.2 entry hentry)
      exact List.mem_map.2 ⟨other, hother, by simpa using heq⟩
    have hsubperm := List.subperm_of_subset (nodup_keys_of_sharedOnceOf henter) hsub
    have hperm := hsubperm.perm_of_length_le (by simpa using Nat.le_of_eq hmatch.1.symm)
    exact hperm.symm.subset
  next => cases h

/-- Every parameter that is replaced has a field. -/
theorem exists_fieldName? {enter exit : Option BoundMethod} {locals : AdviceLocals}
    (h : AdviceLocals.create enter exit = .ok locals) {param : NodeId}
    (hparam : param ∈ locals.enter.map (·.2.param) ∨ param ∈ locals.exitParams) :
    ∃ field, locals.fieldName? param = some field := by
  rw [AdviceLocals.fieldName?]
  split
  next => exact ⟨_, rfl⟩
  next hnotEntered =>
    split
    next => exact ⟨_, rfl⟩
    next hnotEnter =>
      have hshared : ∃ entry ∈ locals.exit, entry.2.param = param := by
        rcases hparam with hparam | hparam
        · obtain ⟨entry, hentry, rfl⟩ := List.mem_map.1 hparam
          exact absurd (List.find?_eq_none.1 hnotEnter entry hentry) (by simp)
        · rcases List.mem_append.1 hparam with hparam | hparam
          · exact List.mem_map.1 hparam
          · obtain ⟨enter, henter, rfl⟩ := Option.map_eq_some_iff.1 (Option.mem_toList.1 hparam)
            rw [henter, Option.filter_some, if_pos (beq_self_eq_true _)] at hnotEntered
            cases hnotEntered
      obtain ⟨entry, hentry, rfl⟩ := hshared
      have hfound : (locals.exit.find? fun other => other.2.param == entry.2.param).isSome :=
        List.find?_isSome.2 ⟨entry, hentry, beq_self_eq_true _⟩
      obtain ⟨found, hfound⟩ := Option.isSome_iff_exists.1 hfound
      have hkey := keys_subset_of_create h
        (List.mem_map_of_mem (f := Prod.fst) (List.mem_of_find?_eq_some hfound))
      obtain ⟨enterEntry, henterEntry, hsame⟩ := List.mem_map.1 hkey
      have hfound' : (locals.enter.find? fun other => other.1 == found.1).isSome :=
        List.find?_isSome.2 ⟨enterEntry, henterEntry, beq_iff_eq.2 hsame⟩
      obtain ⟨found', hfound'⟩ := Option.isSome_iff_exists.1 hfound'
      refine ⟨found'.2.name, ?_⟩
      simp only [hfound, hfound', Option.bind_eq_bind, Option.bind_some, Option.pure_def]

/-! ### References that become the carrier -/

/-- Whether a reference to a replaced parameter stands where the name of the carrier does not lead to the carrier: it means a declaration that stays, or a parameter that is replaced later, so that the new reference is replaced in turn. -/
def Hides (method : Method) (replaced : List NodeId) (var : String) : Prop :=
  ∃ place ∈ placesOf method, ∃ before param after decl, replaced = before ++ param :: after ∧
    Means place.state place.name param ∧ Means place.state var decl ∧
      (decl ∉ replaced ∨ decl ∈ after)

/-- A name that a method declares nowhere hides no carrier. -/
theorem not_hides_of_not_bind {method : Method} {replaced : List NodeId} {var : String}
    (h : ∀ binder id, .bind binder var id ∉ BodyScopes.eventsOf method) :
    ¬ Hides method replaced var := by
  rintro ⟨place, hplace, -, -, -, -, -, -, ⟨found, hfound, -⟩, -⟩
  obtain ⟨binder, hbind⟩ := exists_bind_of_meaning hplace hfound
  exact h binder found.decl hbind

/-- Whether the references of a method to some of its parameters have become the carrier or the field of it that stands for the parameter, and lead to the carrier in another method, while all other names have stayed and lead to what they led to. -/
structure HandsOver (locals : AdviceLocals) (method : Method) (replaced : List NodeId)
    (spelling : Spelling) (moved : Method) (var : String) (carrier : Resolution) : Prop where
  handed : ∀ occurrence ∈ (BodyScopes.ofMethod method).uses, ∀ param ∈ replaced,
    BodyScopes.refersTo occurrence param → ∃ id field, locals.fieldName? param = some field ∧
      spelling occurrence.id occurrence.name =
        ⟨id, var, if locals.needsContainer then [field] else []⟩ ∧
      (BodyScopes.ofMethod moved).resolve? id = some carrier
  kept : ∀ occurrence ∈ (BodyScopes.ofMethod method).uses,
    (∀ param ∈ replaced, ¬ BodyScopes.refersTo occurrence param) →
      spelling occurrence.id occurrence.name = ⟨occurrence.id, occurrence.name, []⟩ ∧
      (BodyScopes.ofMethod moved).resolve? occurrence.id = occurrence.resolution
  declared : ∃ binder, binder.resolution carrier.decl = carrier ∧
    .bind binder var carrier.decl ∈ BodyScopes.eventsOf moved
  new : ∀ binder name, .bind binder name carrier.decl ∉ BodyScopes.eventsOf method

theorem exists_place_of_use {method : Method} {occurrence : NameUse}
    (h : occurrence ∈ (BodyScopes.ofMethod method).uses) : ∃ place ∈ placesOf method,
      place.id = occurrence.id ∧ place.name = occurrence.name ∧
      place.state.names place.name = occurrence.resolution := by
  have hmem := BodyScopes.exists_use_iff.2 ⟨occurrence, h, rfl⟩
  obtain ⟨place, hplace, heq⟩ := List.mem_map.1 hmem
  obtain ⟨hid, hname, hresolution⟩ := Reference.mk.inj heq
  exact ⟨place, hplace, hid, hname, hresolution⟩

theorem refersTo_eq_means {occurrence : NameUse} {place : Place ScopeReader}
    (h : place.state.names place.name = occurrence.resolution) (decl : NodeId) :
    BodyScopes.refersTo occurrence decl = true ↔ Means place.state place.name decl := by
  rw [BodyScopes.refersTo, Means, ← h]
  change _ ↔ ∃ found, place.state.names place.name = some found ∧ _
  cases place.state.names place.name <;> simp

theorem names_of_body {method : Method} {body : Block} (hbody : method.body = some body) :
    method.names = namesOf body.innerEvents := by
  rw [Method.names, ScopeReader.reading.namesOf_eq .start, ← placesOf, placesOf_eq hbody,
    ← ScopeReader.reading.namesOf_eq]

theorem nodup_ids_of_identified {method : Method} {body : Block} (hbody : method.body = some body)
    {next : NodeId} (hids : method.Identified next) (reader : ScopeReader) :
    ((ScopeReader.reading.places reader body.innerEvents).map (·.id)).Nodup := by
  have hnodup := hids.nodup
  rw [names_of_body hbody, ScopeReader.reading.namesOf_eq reader, List.map_map] at hnodup
  exact hnodup

/-! ### Names in the new method -/

/-- With a variable declared first, names from before occur inside its scope. -/
theorem places_declaring {moved : Method} {body : Block} {id : NodeId} {type : TypeRef}
    {name : String} {init : Expr}
    (hbody : moved.body = some (declaring (.single id type name init) body)) {next : NodeId}
    (hinit : init.events.filter (Event.isOlder next) = []) :
    (placesOf moved).filter (fun place => place.id < next) =
      (ScopeReader.reading.places (afterFirst moved.params name id) body.innerEvents).filter
        fun place => place.id < next := by
  have hnone := places_filter_isOlder ScopeReader.reading next (afterFirst moved.params name id)
    init.events
  have hafter := after_filter_isOlder ScopeReader.reading next (afterFirst moved.params name id)
    init.events
  rw [hinit] at hnone hafter
  rw [placesOf_eq hbody, innerEvents_declaring, Reading.places_append, List.filter_append,
    Reading.after_append]
  change (ScopeReader.reading.places (afterFirst moved.params name id) init.events).filter _ ++
    (ScopeReader.reading.places (ScopeReader.reading.after (afterFirst moved.params name id)
      init.events) _).filter _ = _
  rw [← hnone, ← hafter]
  rfl

/-- All names of a method are from before an identity that is not in use. -/
theorem filter_places_of_identified {method : Method} {body : Block}
    (hbody : method.body = some body) {next : NodeId} (hids : method.Identified next)
    (reader : ScopeReader) :
    (ScopeReader.reading.places reader body.innerEvents).filter (fun place => place.id < next) =
      ScopeReader.reading.places reader body.innerEvents := by
  refine List.filter_eq_self.2 fun place hplace => decide_eq_true ?_
  have hname : (place.id, place.name) ∈ method.names := by
    rw [names_of_body hbody, ScopeReader.reading.namesOf_eq reader]
    exact List.mem_map.2 ⟨place, hplace, rfl⟩
  exact hids.below _ hname

theorem bind_declaring {moved : Method} {body : Block} {id : NodeId} {type : TypeRef}
    {name : String} {init : Expr}
    (hbody : moved.body = some (declaring (.single id type name init) body)) :
    ∃ binder : Binder, binder.resolution id = .variable id ∧
      .bind binder name id ∈ BodyScopes.eventsOf moved := by
  refine ⟨.variable, rfl, ?_⟩
  rw [eventsOf_of_body hbody, innerEvents_declaring]
  simp

section Served

variable {locals : AdviceLocals} {method moved : Method} {body : Block} {replaced : List NodeId}
  {var : String} {spelling : Spelling} {next middle : NodeId}
  (hbody : method.body = some body) (hdistinct : Distinct method.mentions)
  (hbelow : ∀ mention ∈ method.mentions, mention.id < next)
  (hnames : (method.params.map (·.name)).Nodup)
  (hreplaced : replaced ⊆ method.params.map (·.id))
  (hfields : ∀ param ∈ replaced, ∃ field, locals.fieldName? param = some field)
  (hfree : ¬ Hides method replaced var) (hreads : ReadsFrom locals var replaced next method spelling)
  (hids : (method.respell spelling).Identified middle)

include hbody hdistinct hnames hreplaced hids in
/-- A respelled name is found in the new method, among the names of its new surroundings. -/
theorem exists_served_state {carrier : Resolution} {around : ScopeReader}
    (hnumbered : Numbered around) (hlast : around.current + 1 = around.scopes.size)
    (hserves : Serves method replaced var carrier around.names)
    (hplaces : (placesOf moved).filter (fun place => place.id < middle) =
      ScopeReader.reading.places around (body.respell spelling).innerEvents)
    {place : Place ScopeReader} (hplace : place ∈ placesOf method) :
    ∃ state : ScopeReader,
      ((∀ param ∈ replaced, ¬ Means place.state place.name param) →
        state.names place.name = place.state.names place.name) ∧
      ((∀ decl, Means place.state var decl → decl ∈ replaced) → state.names var = some carrier) ∧
      (BodyScopes.ofMethod moved).resolve? (spelling place.id place.name).id =
        state.names (spelling place.id place.name).name := by
  have hserved := places_served hbody hdistinct hnames hreplaced hnumbered hlast hserves
  have hnodup := nodup_ids_of_identified (Method.body_respell hbody spelling) hids around
  obtain ⟨⟨state, id, name⟩, hplace', rfl, rfl, hkept, hcarrier⟩ :=
    exists_of_mem_forall₂ hserved.flip hplace
  refine ⟨state, hkept, hcarrier, ?_⟩
  refine @resolve?_of_older _ _ _ hplaces hnodup (Place.respell spelling ⟨state, _, _⟩) ?_
  rw [Block.innerEvents_respell, Reading.places_respell]
  exact List.mem_map_of_mem hplace'

include hbody hdistinct hbelow hnames hreplaced hfields hfree hreads hids

/-- A body whose references are read from a carrier, among names that serve it. -/
theorem handsOver_of_serves {carrier : Resolution} {around : ScopeReader}
    (hnumbered : Numbered around) (hlast : around.current + 1 = around.scopes.size)
    (hserves : Serves method replaced var carrier around.names)
    (hplaces : (placesOf moved).filter (fun place => place.id < middle) =
      ScopeReader.reading.places around (body.respell spelling).innerEvents)
    (hdeclared : ∃ binder : Binder, binder.resolution carrier.decl = carrier ∧
      .bind binder var carrier.decl ∈ BodyScopes.eventsOf moved) (hnew : next ≤ carrier.decl) :
    HandsOver locals method replaced spelling moved var carrier := by
  have hfound := fun place (hplace : place ∈ placesOf method) =>
    exists_served_state hbody hdistinct hnames hreplaced hids hnumbered hlast hserves hplaces hplace
  refine ⟨?_, ?_, hdeclared, fun binder name hbind =>
    Nat.not_lt_of_le hnew (Method.lt_of_bind hbelow hbind)⟩
  · intro occurrence hoccurrence param hparam hrefers
    obtain ⟨place, hplace, hid, hname, hresolution⟩ := exists_place_of_use hoccurrence
    have hmeans := (refersTo_eq_means hresolution param).1 hrefers
    obtain ⟨before, after, heq, hfirst⟩ := List.eq_append_cons_of_mem hparam
    have hvar : ∀ decl, Means place.state var decl → decl ∈ replaced ∧ decl ∉ after := by
      intro decl hdecl
      have hnot := fun h => hfree ⟨place, hplace, before, param, after, decl, heq, hmeans, hdecl, h⟩
      exact ⟨not_not.1 fun h => hnot (.inl h), fun h => hnot (.inr h)⟩
    obtain ⟨fresh, -, hspelled⟩ := hreads.handed place hplace before param after heq hfirst hmeans
      fun later hlater hdecl => (hvar later hdecl).2 hlater
    obtain ⟨state, -, hcarrier, hresolve⟩ := hfound place hplace
    obtain ⟨field, hfield⟩ := hfields param hparam
    rw [hspelled, hcarrier fun decl hdecl => (hvar decl hdecl).1] at hresolve
    refine ⟨fresh, field, hfield, ?_, hresolve⟩
    rw [← hid, ← hname, hspelled, accessFields, hfield]
  · intro occurrence hoccurrence hnone
    obtain ⟨place, hplace, hid, hname, hresolution⟩ := exists_place_of_use hoccurrence
    have hnot : ∀ param ∈ replaced, ¬ Means place.state place.name param :=
      fun param hparam hmeans => hnone param hparam ((refersTo_eq_means hresolution param).2 hmeans)
    obtain ⟨state, hkept, -, hresolve⟩ := hfound place hplace
    have hspelled := hreads.kept place hplace hnot
    rw [hspelled, hkept hnot, hresolution] at hresolve
    rw [← hid, ← hname]
    exact ⟨hspelled, hresolve⟩

/-- The carrier in a variable that is declared first, in a method with other parameters. -/
theorem handsOver_of_declared {stored : Block} {extra : List Param} {id : NodeId} {type : TypeRef}
    {init : Expr} (hvar : var ∉ TakenNames.ofMethod method replaced)
    (hextra : ∀ param ∈ extra, param.name ∉ TakenNames.ofMethod method replaced)
    (hnodup : (extra.map (·.name)).Nodup)
    (hparams : moved.params = keptParams method replaced ++ extra)
    (hmoved : moved.body = some (declaring (.single id type var init) stored))
    (hstored : stored.innerEvents.filter (Event.isOlder middle) =
      (body.respell spelling).innerEvents.filter (Event.isOlder middle))
    (hinit : init.events.filter (Event.isOlder middle) = []) (hnew : next ≤ id) :
    HandsOver locals method replaced spelling moved var (.variable id) := by
  refine handsOver_of_serves hbody hdistinct hbelow hnames hreplaced hfields hfree hreads hids
    (numbered_afterFirst _ var id) (afterFirst_last _ var id)
    (serves_declared hnames hextra hnodup hvar id) ?_ (bind_declaring hmoved) hnew
  rw [places_declaring hmoved hinit, ← places_filter_isOlder, hstored, places_filter_isOlder,
    filter_places_of_identified (Method.body_respell hbody spelling) hids, hparams]

/-- The carrier in a new parameter. -/
theorem handsOver_of_param {param : Param} (hname : param.name = var)
    (hvar : var ∉ TakenNames.ofMethod method replaced)
    (hparams : moved.params = keptParams method replaced ++ [param])
    (hmoved : moved.body = some (body.respell spelling)) (hnew : next ≤ param.id) :
    HandsOver locals method replaced spelling moved var (.param param.id) := by
  subst hname
  refine handsOver_of_serves hbody hdistinct hbelow hnames hreplaced hfields hfree hreads hids
    (numbered_inBody _) (inBody_last _) (serves_param hnames hvar) ?_ ?_ hnew
  · rw [placesOf_eq hmoved, hparams,
      filter_places_of_identified (Method.body_respell hbody spelling) hids]
  · refine ⟨.methodParam, rfl, List.mem_append_left _ (List.mem_map.2 ⟨param, ?_, rfl⟩)⟩
    rw [hparams]
    exact List.mem_append_right _ List.mem_cons_self

end Served

/-! ### The two methods -/

/-- The name of the carrier in the enter method. -/
def AdviceLocals.enterVar? (locals : AdviceLocals) (method : Method) : Option String :=
  locals.enterCarrier?.map fun carrier =>
    (TakenNames.ofMethod method (locals.enter.map (·.2.param))).freshName carrier.1

/-- The name of the carrier in the exit method. -/
def AdviceLocals.exitVar? (locals : AdviceLocals) (method : Method) : Option String :=
  locals.exitBase?.map (TakenNames.ofMethod method locals.exitParams).freshName

/-- Whether the body of an enter method reads from a carrier that is declared first, with returned values stored there. -/
def EntersWith (locals : AdviceLocals) (method moved : Method) (carrier : Option ValueToReturn) :
    Prop :=
  ∃ value body spelling middle stored, carrier = some value ∧
    locals.enterVar? method = some value.name ∧ method.body = some body ∧
    (locals.storeReturns value.name (body.respell spelling)).run middle =
      ((stored, true), value.decl) ∧
    moved.body = some (declaring (.single value.decl value.type value.name
      (locals.initialValue value.type)) stored) ∧
    HandsOver locals method (locals.enter.map (·.2.param)) spelling moved value.name
      (.variable value.decl)

/-- Whether the body of an exit method reads from a carrier that is a new parameter, or a variable declared first if the parameter holds several values. -/
def ExitsWith (locals : AdviceLocals) (method moved : Method)
    (change : Option AdviceLocals.ExitChange) : Prop :=
  ∃ received var body spelling, change = some received ∧ locals.exitVar? method = some var ∧
    method.body = some body ∧
    ((received.unpacked = none ∧ moved.body = some (body.respell spelling) ∧
      HandsOver locals method locals.exitParams spelling moved var (.param received.param)) ∨
    ∃ decl type init, received.unpacked = some decl ∧
      moved.body = some (declaring (.single decl type var init) (body.respell spelling)) ∧
      HandsOver locals method locals.exitParams spelling moved var (.variable decl))

theorem param_mem_of_binding {scope : TypeScope} {method : Method} {bindings : List Binding}
    (hbindings : Binding.ofMethod scope method = .ok bindings) {binding : Binding}
    (hmem : binding ∈ bindings) : binding.param ∈ method.params.map (·.id) := by
  obtain ⟨param, hparam, hofParam⟩ := exists_of_mem_forall₂ (mapM_eq_ok_iff.1 hbindings) hmem
  exact List.mem_map.2 ⟨param, hparam, (Binding.ofParam_eq_ok hofParam).1.symm⟩

/-- Shared values are those of parameters of the method. -/
theorem shared_subset {scope : TypeScope} {method : Method} {bindings : List Binding}
    (hbindings : Binding.ofMethod scope method = .ok bindings) :
    (BoundMethod.shared ⟨method, bindings⟩).map (·.2.param) ⊆ method.params.map (·.id) := by
  intro param hparam
  obtain ⟨entry, hentry, rfl⟩ := List.mem_map.1 hparam
  obtain ⟨binding, hbinding, heq, -⟩ := exists_of_mem_shared hentry
  exact heq ▸ param_mem_of_binding hbindings hbinding

theorem isNonempty_eq_false_of_enterCarrier? {locals : AdviceLocals}
    (h : locals.enterCarrier? = none) : locals.isNonempty = false := by
  unfold AdviceLocals.enterCarrier? at h
  split at h
  · cases h
  · obtain ⟨henter, hentered⟩ := eq_nil_of_firstOf? (Option.map_eq_none_iff.1 h)
    simp [AdviceLocals.isNonempty, AdviceLocals.hasShared, henter, hentered]

theorem entersWith_transformEnter {scope : TypeScope} {method moved : Method}
    {bindings : List Binding} {partner : Option BoundMethod} {locals : AdviceLocals}
    {next next' : NodeId} {carrier : Option ValueToReturn} (hdistinct : Distinct method.mentions)
    (hbelow : ∀ mention ∈ method.mentions, mention.id < next)
    (hnames : (method.params.map (·.name)).Nodup)
    (hbindings : Binding.ofMethod scope method = .ok bindings)
    (hlocals : AdviceLocals.create (some ⟨method, bindings⟩) partner = .ok locals)
    (hnonempty : locals.isNonempty)
    (hfree : ∀ var, locals.enterVar? method = some var →
      ¬ Hides method (locals.enter.map (·.2.param)) var)
    (h : (locals.transformEnter method).run next = ((moved, .ok carrier), next')) :
    EntersWith locals method moved carrier := by
  have hids := Method.Identified.of_distinct hdistinct hbelow
  rcases run_transformEnter hids h with ⟨hnone, -, -, -⟩ | ⟨base, type, spelling, middle, body,
    stored, last, hcarrier, hbody, hle, hids', hreads, hstored, rfl, rfl, -⟩
  · rw [isNonempty_eq_false_of_enterCarrier? hnone] at hnonempty
    cases hnonempty
  · let replaced := locals.enter.map (·.2.param)
    let var := (TakenNames.ofMethod method replaced).freshName base
    have hvar : locals.enterVar? method = some var := by
      rw [AdviceLocals.enterVar?, hcarrier]
      rfl
    let erased : Method :=
      { AdviceLocals.eraseParams (method.respell spelling) replaced with body := some stored }
    have hmoved := @body_declareFirst erased stored rfl
      (.single last type var (locals.initialValue type))
    have hparams : erased.params = keptParams method replaced ++ [] :=
      (@params_eraseParams (method.respell spelling) hdistinct.params replaced).trans
        (List.append_nil _).symm
    have hlast : middle ≤ last := by
      have hgrows := grows_storeReturns locals var (body.respell spelling) middle
      rwa [hstored] at hgrows
    have henter : locals.enter = BoundMethod.shared ⟨method, bindings⟩ :=
      (AdviceLocals.create_eq_ok hlocals).1
    have hshared : replaced ⊆ method.params.map (·.id) := by
      dsimp only [replaced]
      rw [henter]
      exact shared_subset hbindings
    have hinit : (locals.initialValue type).events.filter (Event.isOlder middle) = [] :=
      List.filter_eq_nil_iff.2 fun event hmem => by
        rw [events_initialValue locals type event hmem]
        exact Bool.false_ne_true
    refine ⟨⟨last, var, type, none⟩, body, spelling, middle, stored, rfl, hvar, hbody, hstored,
      hmoved, ?_⟩
    exact handsOver_of_declared hbody hdistinct hbelow hnames hshared
      (fun param hparam => exists_fieldName? hlocals (.inl hparam)) (hfree var hvar) hreads hids'
      (TakenNames.freshName_not_mem _ _) (List.forall_mem_nil _) List.nodup_nil hparams hmoved
      (filter_isOlder_storeReturns hstored) hinit (Nat.le_trans hle hlast)

theorem isNonempty_eq_false_of_exitParams {locals : AdviceLocals}
    (hlength : locals.enter.length = locals.exit.length) (h : locals.exitParams = []) :
    locals.isNonempty = false := by
  obtain ⟨hexit, hentered⟩ := List.append_eq_nil_iff.1 h
  rw [List.map_eq_nil_iff] at hexit
  rw [hexit, List.length_nil, List.length_eq_zero_iff] at hlength
  rw [Option.toList_eq_nil_iff, Option.map_eq_none_iff] at hentered
  simp [AdviceLocals.isNonempty, AdviceLocals.hasShared, hlength, hentered]

/-- The parameters that the carrier replaces are parameters of the exit method. -/
theorem exitParams_subset {scope : TypeScope} {method : Method} {bindings : List Binding}
    {partner : Option BoundMethod} {locals : AdviceLocals}
    (hbindings : Binding.ofMethod scope method = .ok bindings)
    (hlocals : AdviceLocals.create partner (some ⟨method, bindings⟩) = .ok locals) :
    locals.exitParams ⊆ method.params.map (·.id) := by
  obtain ⟨-, hexit, -, hentered⟩ := AdviceLocals.create_eq_ok hlocals
  intro param hparam
  rcases List.mem_append.1 hparam with hparam | hparam
  · rw [hexit] at hparam
    exact shared_subset hbindings hparam
  · obtain ⟨enter, henter, rfl⟩ := Option.map_eq_some_iff.1 (Option.mem_toList.1 hparam)
    rw [henter] at hentered
    obtain ⟨binding, hbinding, heq, -⟩ := mem_of_entered hentered
    exact heq ▸ param_mem_of_binding hbindings hbinding

theorem exitsWith_transformExit {scope : TypeScope} {method moved : Method}
    {bindings : List Binding} {partner : Option BoundMethod} {locals : AdviceLocals}
    {enterPacked : Bool} {annot : Annot} {next next' : NodeId}
    {change : Option AdviceLocals.ExitChange} (hdistinct : Distinct method.mentions)
    (hbelow : ∀ mention ∈ method.mentions, mention.id < next)
    (hnames : (method.params.map (·.name)).Nodup)
    (hbindings : Binding.ofMethod scope method = .ok bindings)
    (hlocals : AdviceLocals.create partner (some ⟨method, bindings⟩) = .ok locals)
    (hnonempty : locals.isNonempty)
    (hfree : ∀ var, locals.exitVar? method = some var → ¬ Hides method locals.exitParams var)
    (h : (locals.transformExit method enterPacked annot).run next = ((moved, .ok change), next')) :
    ExitsWith locals method moved change := by
  have hlength := (AdviceLocals.create_eq_ok hlocals).2.2.1
  have hids := Method.Identified.of_distinct hdistinct hbelow
  rcases run_transformExit hids h with ⟨hnone, -, -⟩ | ⟨base, type, spelling, middle, body,
    received, -, hbase, hbody, hle, hids', hreads, hreceived, rfl⟩
  · have hnil : locals.exitParams = [] :=
      hnone.elim (exitParams_eq_nil_of_carrierType? hlength) exitParams_eq_nil_of_exitBase?
    rw [isNonempty_eq_false_of_exitParams hlength hnil] at hnonempty
    cases hnonempty
  · let taken := TakenNames.ofMethod method locals.exitParams
    let var := taken.freshName base
    let packed := TakenNames.freshName (var :: taken) packedParam
    have hvar : locals.exitVar? method = some var := by
      rw [AdviceLocals.exitVar?, hbase]
      rfl
    have htaken : var ∉ taken := TakenNames.freshName_not_mem _ _
    let erased := AdviceLocals.eraseParams (method.respell spelling) locals.exitParams
    have herased : erased.body = some (body.respell spelling) := by
      rw [body_eraseParams, Method.body_respell hbody]
    have hparams : erased.params = keptParams method locals.exitParams :=
      @params_eraseParams (method.respell spelling) hdistinct.params locals.exitParams
    have hshared := exitParams_subset hbindings hlocals
    have hfields : ∀ param ∈ locals.exitParams, ∃ field, locals.fieldName? param = some field :=
      fun param hparam => exists_fieldName? hlocals (.inr hparam)
    cases enterPacked with
    | false =>
      cases hreceived
      let param := Param.single middle annot type var
      refine ⟨⟨middle, none⟩, var, body, spelling, rfl, hvar, hbody, .inl ⟨rfl, herased, ?_⟩⟩
      exact @handsOver_of_param _ _ _ _ _ _ _ _ _ hbody hdistinct hbelow hnames hshared hfields
        (hfree var hvar) hreads hids' param rfl htaken (congrArg (· ++ [param]) hparams) herased hle
    | true =>
      cases hreceived
      let param := Param.single middle annot (.array objectType) packed
      let unpack := Expr.cast type (.index (.name (middle + 1) packed) (.ofInt 0))
      have hmoved := body_declareFirst herased (.single (middle + 2) type var unpack)
      have hextra : ∀ other ∈ [param], other.name ∉ taken := by
        intro other hother hmem
        rw [List.mem_singleton.1 hother] at hmem
        exact TakenNames.freshName_not_mem (var :: taken) packedParam (List.mem_cons_of_mem _ hmem)
      have hunpack : unpack.events.filter (Event.isOlder middle) = [] := by
        change [Event.use .read packed (middle + 1)].filter _ = []
        simp [Event.isOlder]
      refine ⟨⟨middle, some (middle + 2)⟩, var, body, spelling, rfl, hvar, hbody,
        .inr ⟨_, _, _, rfl, hmoved, ?_⟩⟩
      exact handsOver_of_declared hbody hdistinct hbelow hnames hshared hfields (hfree var hvar)
        hreads hids' htaken hextra (List.nodup_singleton _) (congrArg (· ++ [param]) hparams) hmoved
        rfl hunpack (Nat.le_trans hle (Nat.le_add_right _ _))

/-- Handing values over keeps what names refer to: a reference to a parameter that goes becomes the carrier, or the field of it that stands for the parameter, and leads to the new declaration of the carrier, and all other names stay and lead to what they led to. No reference may stand where the name of the carrier means something else. -/
theorem handsOver_transform {scope : TypeScope} {method moved : Method} {bindings : List Binding}
    {partner : Option BoundMethod} {locals : AdviceLocals} {next next' : NodeId}
    (hdistinct : Distinct method.mentions) (hbelow : ∀ mention ∈ method.mentions, mention.id < next)
    (hnames : (method.params.map (·.name)).Nodup)
    (hbindings : Binding.ofMethod scope method = .ok bindings) (hnonempty : locals.isNonempty) :
    (∀ carrier, AdviceLocals.create (some ⟨method, bindings⟩) partner = .ok locals →
      (∀ var, locals.enterVar? method = some var →
        ¬ Hides method (locals.enter.map (·.2.param)) var) →
      (locals.transformEnter method).run next = ((moved, .ok carrier), next') →
      EntersWith locals method moved carrier) ∧
    (∀ enterPacked annot change,
      AdviceLocals.create partner (some ⟨method, bindings⟩) = .ok locals →
      (∀ var, locals.exitVar? method = some var → ¬ Hides method locals.exitParams var) →
      (locals.transformExit method enterPacked annot).run next = ((moved, .ok change), next') →
      ExitsWith locals method moved change) := by
  constructor
  · intro carrier hlocals hfree h
    exact entersWith_transformEnter hdistinct hbelow hnames hbindings hlocals hnonempty hfree h
  · intro enterPacked annot change hlocals hfree h
    exact exitsWith_transformExit hdistinct hbelow hnames hbindings hlocals hnonempty hfree h

/-- An advice method that shares two values under the keys `a` and `b`. -/
def sharingMethod (id : NodeId) (marker first second : String) (stmt : StmtKind) : Method :=
  let shared (id : NodeId) (key name : String) : Param :=
    .single id (.single "Advice.Local" (.expr (.literal ⟨.string, key⟩))) objectType name
  methodOf id [.marker marker] "advice"
    [shared (id + 1) "\"a\"" first, shared (id + 2) "\"b\"" second] stmt

/-- A class with two advice methods that share two values, in a file that imports the annotations. -/
def sharingScope (enter exit : Method) : TypeScope :=
  TypeScope.ofUnit (unitOf [Framework.advice] (classOf 0 "A" [.method enter, .method exit]))
    Framework.index

/-- Both methods read two values from a container. -/
theorem handsOver_transform_sharingMethod :
    let enter := sharingMethod 1 "Advice.OnMethodEnter" "a" "b"
      (.expr (.assign (.name 4 "a") .assign (.name 5 "b")))
    let exit := sharingMethod 6 "Advice.OnMethodExit" "a" "b"
      (.expr (.assign (.name 9 "b") .assign (.name 10 "limit")))
    ∃ bindings bindings' locals moved moved' carrier change next next',
      Binding.ofMethod (sharingScope enter exit) enter = .ok bindings ∧
      Binding.ofMethod (sharingScope enter exit) exit = .ok bindings' ∧
      AdviceLocals.create (some ⟨enter, bindings⟩) (some ⟨exit, bindings'⟩) = .ok locals ∧
      (locals.transformEnter enter).run 11 = ((moved, .ok carrier), next) ∧
      (locals.transformExit exit false (.marker "Advice.Enter")).run 11 =
        ((moved', .ok change), next') ∧
      EntersWith locals enter moved carrier ∧ ExitsWith locals exit moved' change := by
  intro enter exit
  let scope := sharingScope enter exit
  let annot : Annot := .marker "Advice.Enter"
  have hrun : ((Binding.ofMethod scope enter).toOption.bind fun bindings =>
      (Binding.ofMethod scope exit).toOption.bind fun bindings' =>
        (AdviceLocals.create (some ⟨enter, bindings⟩) (some ⟨exit, bindings'⟩)).toOption.map
          fun locals =>
            (locals.isNonempty, locals.enterVar? enter, locals.exitVar? exit,
              ((locals.transformEnter enter).run 11).1.2.toOption.isSome,
              ((locals.transformExit exit false annot).run 11).1.2.toOption.isSome)) =
      some (true, some "locals", some "locals", true, true) := by
    decide +kernel
  obtain ⟨bindings, hbindings, hrun⟩ := Option.bind_eq_some_iff.1 hrun
  obtain ⟨bindings', hbindings', hrun⟩ := Option.bind_eq_some_iff.1 hrun
  obtain ⟨locals, hlocals, hrun⟩ := Option.map_eq_some_iff.1 hrun
  obtain ⟨hnonempty, hrun⟩ := Prod.mk.inj hrun
  obtain ⟨henterVar, hrun⟩ := Prod.mk.inj hrun
  obtain ⟨hexitVar, hrun⟩ := Prod.mk.inj hrun
  obtain ⟨henter, hexit⟩ := Prod.mk.inj hrun
  obtain ⟨carrier, hcarrier⟩ := Option.isSome_iff_exists.1 henter
  obtain ⟨change, hchange⟩ := Option.isSome_iff_exists.1 hexit
  have hbindings := eq_ok_of_toOption hbindings
  have hbindings' := eq_ok_of_toOption hbindings'
  have hlocals := eq_ok_of_toOption hlocals
  have hmoved : (locals.transformEnter enter).run 11 = ((_, .ok carrier), _) :=
    Prod.ext (Prod.ext rfl (eq_ok_of_toOption hcarrier)) rfl
  have hmoved' : (locals.transformExit exit false annot).run 11 = ((_, .ok change), _) :=
    Prod.ext (Prod.ext rfl (eq_ok_of_toOption hchange)) rfl
  have hunmentioned : ∀ method ∈ [enter, exit], "locals" ∉ BodyScopes.mentionedNames method := by
    decide +kernel
  have hfree : ∀ method ∈ [enter, exit], ∀ replaced, ¬ Hides method replaced "locals" :=
    fun method hmethod replaced => not_hides_of_not_bind fun binder id hbind =>
      hunmentioned method hmethod (List.mem_filterMap.2 ⟨_, hbind, rfl⟩)
  have hdistinct : Distinct enter.mentions := by
    rw [Distinct]
    decide
  have hdistinct' : Distinct exit.mentions := by
    rw [Distinct]
    decide
  refine ⟨bindings, bindings', locals, _, _, carrier, change, _, _, hbindings, hbindings', hlocals,
    hmoved, hmoved', ?_, ?_⟩
  · refine (handsOver_transform hdistinct (by decide) (by decide) hbindings hnonempty).1 carrier
      hlocals (fun var hvar => ?_) hmoved
    rw [henterVar] at hvar
    cases hvar
    exact hfree enter (by simp) _
  · refine (handsOver_transform hdistinct' (by decide) (by decide) hbindings' hnonempty).2 false
      annot change hlocals (fun var hvar => ?_) hmoved'
    rw [hexitVar] at hvar
    cases hvar
    exact hfree exit (by simp) _

/-- The fields that an expression reads one after the other. -/
def fieldPath : Expr → List String
  | .field receiver name => fieldPath receiver ++ [name]
  | _ => []

/-- The fields that the assignments among the statements of a body write to. -/
def writtenPaths (method : Method) : List (List String) :=
  (method.body.map (·.stmts)).getD [] |>.filterMap fun stmt =>
    match stmt.kind with
    | .expr (.assign target _ _) => some (fieldPath target)
    | _ => none

/-- A parameter with the name of the carrier is replaced in the reference that has become the carrier: `a = 1` turns into `locals.locals.a = 1`. -/
theorem not_entersWith_doubled :
    let enter := sharingMethod 1 "Advice.OnMethodEnter" "a" "locals"
      (.expr (.assign (.name 4 "a") .assign (.ofInt 1)))
    let exit := sharingMethod 5 "Advice.OnMethodExit" "a" "locals"
      (.expr (.assign (.name 8 "a") .assign (.ofInt 1)))
    Distinct enter.mentions ∧ (∀ mention ∈ enter.mentions, mention.id < 9) ∧
      (enter.params.map (·.name)).Nodup ∧ ∃ bindings bindings' locals moved carrier next,
        Binding.ofMethod (sharingScope enter exit) enter = .ok bindings ∧
        Binding.ofMethod (sharingScope enter exit) exit = .ok bindings' ∧
        AdviceLocals.create (some ⟨enter, bindings⟩) (some ⟨exit, bindings'⟩) = .ok locals ∧
        locals.isNonempty = true ∧
        (locals.transformEnter enter).run 9 = ((moved, .ok carrier), next) ∧
        ¬ EntersWith locals enter moved carrier := by
  intro enter exit
  let scope := sharingScope enter exit
  have hdistinct : Distinct enter.mentions := by
    rw [Distinct]
    decide
  refine ⟨hdistinct, by decide, by decide, ?_⟩
  have hrun : ((Binding.ofMethod scope enter).toOption.bind fun bindings =>
      (Binding.ofMethod scope exit).toOption.bind fun bindings' =>
        (AdviceLocals.create (some ⟨enter, bindings⟩) (some ⟨exit, bindings'⟩)).toOption.map
          fun locals =>
            ([locals.isNonempty, locals.exitEnter.isNone, locals.needsContainer,
                ((locals.transformEnter enter).run 9).1.2.toOption.isSome],
              locals.enter.map (·.2.param), locals.fieldName? 2,
              writtenPaths ((locals.transformEnter enter).run 9).1.1)) =
      some ([true, true, true, true], [2, 3], some "a", [["locals", "a"]]) := by
    decide +kernel
  obtain ⟨bindings, hbindings, hrun⟩ := Option.bind_eq_some_iff.1 hrun
  obtain ⟨bindings', hbindings', hrun⟩ := Option.bind_eq_some_iff.1 hrun
  obtain ⟨locals, hlocals, hrun⟩ := Option.map_eq_some_iff.1 hrun
  simp only [Prod.mk.injEq, List.cons.injEq] at hrun
  obtain ⟨⟨hnonempty, hentered, hcontainer, hok, -⟩, hparams, hfield, hpaths⟩ := hrun
  obtain ⟨carrier, hcarrier⟩ := Option.isSome_iff_exists.1 hok
  refine ⟨bindings, bindings', locals, _, carrier, _, eq_ok_of_toOption hbindings,
    eq_ok_of_toOption hbindings', eq_ok_of_toOption hlocals, hnonempty,
    Prod.ext (Prod.ext rfl (eq_ok_of_toOption hcarrier)) rfl, ?_⟩
  rintro ⟨value, body, spelling, middle, stored, -, -, hbody, hstored, hmoved, hands⟩
  have huse : ⟨4, "a", .write, 1, some (.param 2)⟩ ∈ (BodyScopes.ofMethod enter).uses := by
    decide +kernel
  obtain ⟨id, field, hfield', hspelled, -⟩ := hands.handed _ huse 2 (by simp [hparams]) (by decide)
  rw [hfield, Option.some_inj] at hfield'
  rw [hcontainer, if_pos rfl, ← hfield'] at hspelled
  rw [AdviceLocals.storeReturns, Option.isNone_iff_eq_none.1 hentered] at hstored
  cases hstored
  cases hbody
  rw [writtenPaths, hmoved] at hpaths
  have hpath : [fieldPath (spelling 4 "a").toExpr] = [["locals", "a"]] := hpaths
  rw [hspelled] at hpath
  exact absurd hpath (by decide : [["a"]] ≠ [["locals", "a"]])

end AdviceMigration.Advice
