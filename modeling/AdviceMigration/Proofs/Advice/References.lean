import AdviceMigration.Advice.Locals
import AdviceMigration.Proofs.Scope.Reading
import AdviceMigration.Proofs.Source.Supply

/-!
# Replaced references

Putting copies of an expression in place of the references to a declaration spells these references anew and keeps all other names. Occurrences keep distinct identities, since the copies draw theirs from the supply. Reading several parameters from the carrier is one spelling, although the scopes are read again for each of them.
-/

namespace AdviceMigration.Source

open AdviceMigration.Scope

/-- The method with the names of its body spelled anew. -/
def Method.respell (spelling : Spelling) (method : Method) : Method :=
  { method with body := method.body.map (Block.respell spelling) }

theorem Method.body_respell {method : Method} {body : Block} (h : method.body = some body)
    (spelling : Spelling) : (method.respell spelling).body = some (body.respell spelling) := by
  rw [Method.respell, h]
  rfl

theorem Method.respell_same (method : Method) : method.respell .same = method := by
  obtain ⟨_, _, _, _, _, _, _, _, _, _ | body⟩ := method
  · rfl
  · simp [Method.respell, Block.respell_same]

theorem Method.respell_respell (first second : Spelling) (method : Method) :
    (method.respell first).respell second = method.respell (first.comp second) := by
  cases hbody : method.body <;> simp [Method.respell, hbody, Block.respell_respell]

theorem Method.eventsOf_respell (spelling : Spelling) (method : Method) :
    BodyScopes.eventsOf (method.respell spelling) =
      (BodyScopes.eventsOf method).map (Event.respell spelling) := by
  rw [BodyScopes.eventsOf, BodyScopes.eventsOf, List.map_append, respell_map_bind]
  cases hbody : method.body <;>
    simp [Method.respell, hbody, Block.eventsOption, Block.events_respell]

/-- The names that occur in a method, with their identities. -/
def Method.names (method : Method) : List (NodeId × String) :=
  namesOf (BodyScopes.eventsOf method)

/-- Whether the name occurrences of a method have distinct identities, which are in use. -/
structure Method.Identified (next : NodeId) (method : Method) : Prop where
  nodup : (method.names.map (·.1)).Nodup
  below : ∀ name ∈ method.names, name.1 < next

theorem Method.names_eq (method : Method) :
    method.names = namesOf (Block.eventsOption method.body) := by
  simp [Method.names, BodyScopes.eventsOf]

/-- Distinct identities of everything in a method are distinct identities of its names. -/
theorem Distinct.nodup_names {method : Method} (hdistinct : Distinct method.mentions) :
    (method.names.map (·.1)).Nodup := by
  have hnames := (Block.traverseOption_traced method.body).trace.names
  rw [← method.names_eq] at hnames
  have hsub : ∀ mentions : List Mention,
      ((mentions.filterMap Mention.name?).map (·.1)).Sublist (mentions.map Mention.id) := by
    intro mentions
    induction mentions with
    | nil => exact .slnil
    | cons mention rest ih =>
      cases mention with
      | decl id => exact ih.cons _
      | name id name => exact ih.cons_cons _
  rw [Method.mentions_eq] at hdistinct
  have hbody := hdistinct.sublist
    ((List.sublist_append_right _ _).trans (List.sublist_cons_self _ _))
  exact (hnames.map _).nodup_iff.2 (List.Nodup.sublist (hsub _) hbody)

theorem Method.mem_names_iff {method : Method} {id : NodeId} {name : String} :
    (id, name) ∈ method.names ↔ .name id name ∈ method.mentions := by
  have hnames := (Block.traverseOption_traced method.body).trace.names
  rw [← method.names_eq] at hnames
  rw [hnames.mem_iff, Method.mentions_eq, List.mem_filterMap]
  constructor
  · rintro ⟨mention, hmem, hname⟩
    cases mention with
    | decl id => cases hname
    | name id name =>
      cases hname
      exact List.mem_cons_of_mem _ (List.mem_append_right _ hmem)
  · intro hmem
    refine ⟨.name id name, ?_, rfl⟩
    simpa using hmem

theorem Method.Identified.of_distinct {method : Method} {next : NodeId}
    (hdistinct : Distinct method.mentions)
    (hbelow : ∀ mention ∈ method.mentions, mention.id < next) : method.Identified next :=
  ⟨hdistinct.nodup_names, fun _ hname => hbelow _ (Method.mem_names_iff.1 hname)⟩

/-- With distinct identities, nothing in the body of a method declares one of its parameters. -/
theorem Distinct.not_bind_param {method : Method} (hdistinct : Distinct method.mentions)
    {param : Param} (hparam : param ∈ method.params) (binder : Binder) (name : String) :
    .bind binder name param.id ∉ Block.eventsOption method.body := by
  intro hbind
  have hvisited := (Block.traverseOption_traced method.body).trace.binds binder name _ hbind
  rw [Method.mentions_eq] at hdistinct
  have happend := hdistinct.sublist (List.sublist_cons_self _ _)
  rw [Distinct, List.map_append] at happend
  refine (List.nodup_append.1 happend).2.2 param.id ?_ param.id ?_ rfl
  · rw [List.map_map]
    exact List.mem_map.2 ⟨param, hparam, rfl⟩
  · exact List.mem_map.2 ⟨_, hvisited, rfl⟩

/-- What a method declares has an identity that is in use. -/
theorem Method.lt_of_bind {method : Method} {next : NodeId}
    (hbelow : ∀ mention ∈ method.mentions, mention.id < next) {binder : Binder} {name : String}
    {id : NodeId} (h : .bind binder name id ∈ BodyScopes.eventsOf method) : id < next := by
  refine hbelow (.decl id) ?_
  rw [Method.mentions_eq]
  rcases List.mem_append.1 h with h | h
  · obtain ⟨param, hparam, heq⟩ := List.mem_map.1 h
    cases heq
    exact List.mem_cons_of_mem _ (List.mem_append_left _ (List.mem_map.2 ⟨param, hparam, rfl⟩))
  · have hvisited := (Block.traverseOption_traced method.body).trace.binds binder name id h
    exact List.mem_cons_of_mem _ (List.mem_append_right _ hvisited)

theorem Method.Identified.of_body {method method' : Method} {next : NodeId}
    (h : method.Identified next) (hbody : method'.body = method.body) :
    method'.Identified next := by
  have hnames : method'.names = method.names := by
    rw [method'.names_eq, method.names_eq, hbody]
  exact ⟨hnames ▸ h.nodup, hnames ▸ h.below⟩

theorem Method.references_nodup {method : Method} (hnames : (method.names.map (·.1)).Nodup) :
    ((BodyScopes.referencesOf method).map (·.id)).Nodup := by
  rw [Method.names, ScopeReader.reading.namesOf_eq .start, List.map_map] at hnames
  rw [BodyScopes.referencesOf, Reading.references, List.map_map]
  exact hnames

theorem Method.Identified.references_nodup {method : Method} {next : NodeId}
    (h : method.Identified next) : ((BodyScopes.referencesOf method).map (·.id)).Nodup :=
  Method.references_nodup h.nodup

theorem Spelled.run_freshCopy (id : NodeId) (name : String) (fields : List String)
    (next : NodeId) :
    (toExpr ⟨id, name, fields⟩).freshCopy.run next = (toExpr ⟨next, name, fields⟩, next + 1) := by
  have hfold : ∀ expr expr' : Expr, expr.freshCopy.run next = (expr', next + 1) →
      (fields.foldl .field expr).freshCopy.run next = (fields.foldl .field expr', next + 1) := by
    induction fields with
    | nil => exact fun _ _ h => h
    | cons field rest ih =>
      intro expr expr' h
      refine ih _ _ ?_
      change ((expr.freshCopy.run next).1.field field, (expr.freshCopy.run next).2) = _
      rw [h]
  exact hfold _ _ rfl

end AdviceMigration.Source

namespace AdviceMigration.Advice

open AdviceMigration.Source AdviceMigration.Scope

/-! ### One declaration -/

/-- Whether an identity is that of a reference to a declaration. -/
def RefersTo (scopes : BodyScopes) (decl : NodeId) (id : NodeId) : Prop :=
  ∃ resolution, scopes.resolve? id = some resolution ∧ resolution.decl = decl

/-- How replacing the references to a declaration spells an occurrence: a reference becomes a copy whose identity is drawn from the supply, any other name stays. -/
def Replaces (scopes : BodyScopes) (decl : NodeId) (copy : Spelled) (next next' : NodeId)
    (name : NodeId × String) (spelled : Spelled) : Prop :=
  (RefersTo scopes decl name.1 ∧
    ∃ fresh, next ≤ fresh ∧ fresh < next' ∧ spelled = ⟨fresh, copy.name, copy.fields⟩) ∨
  (¬ RefersTo scopes decl name.1 ∧ spelled = ⟨name.1, name.2, []⟩)

theorem Replaces.mono {scopes : BodyScopes} {decl : NodeId} {copy spelled : Spelled}
    {next next' lower upper : NodeId} {name : NodeId × String}
    (h : Replaces scopes decl copy next next' name spelled) (hlower : lower ≤ next)
    (hupper : next' ≤ upper) : Replaces scopes decl copy lower upper name spelled := by
  rcases h with ⟨hrefers, fresh, hle, hlt, rfl⟩ | h
  · exact .inl ⟨hrefers, fresh, Nat.le_trans hlower hle, Nat.lt_of_lt_of_le hlt hupper, rfl⟩
  · exact .inr h

/-- Occurrences that are spelled one after the other keep distinct identities. -/
theorem Replaces.id_ne {scopes : BodyScopes} {decl : NodeId} {copy spelled spelled' : Spelled}
    {next middle next' : NodeId} {name name' : NodeId × String}
    (h : Replaces scopes decl copy next middle name spelled)
    (h' : Replaces scopes decl copy middle next' name' spelled') (hne : name.1 ≠ name'.1)
    (hle : next ≤ middle) (hlt : name.1 < next) (hlt' : name'.1 < next) :
    spelled.id ≠ spelled'.id := by
  rcases h with ⟨-, fresh, hfresh, hbound, rfl⟩ | ⟨-, rfl⟩ <;>
    rcases h' with ⟨-, fresh', hfresh', -, rfl⟩ | ⟨-, rfl⟩ <;> dsimp only
  · exact Nat.ne_of_lt (Nat.lt_of_lt_of_le hbound hfresh')
  · exact (Nat.ne_of_lt (Nat.lt_of_lt_of_le hlt' hfresh)).symm
  · exact Nat.ne_of_lt (Nat.lt_of_lt_of_le hlt (Nat.le_trans hle hfresh'))
  · exact hne

theorem run_replacing_name (scopes : BodyScopes) (decl : NodeId) (copy : Spelled)
    (id : NodeId) (name : String) (count next : Nat) :
    ∃ spelled count' next', (((replacing scopes decl copy.toExpr).name id name).run count).run next =
        ((spelled.toExpr, count'), next') ∧ next ≤ next' ∧ next' ≤ next + 1 ∧
      Replaces scopes decl copy next next' (id, name) spelled := by
  cases hresolve : scopes.resolve? id with
  | none =>
    refine ⟨⟨id, name, []⟩, count, next, by simp only [replacing, hresolve]; rfl, Nat.le_refl next,
      Nat.le_succ next, .inr ⟨?_, rfl⟩⟩
    rintro ⟨_, hsome, -⟩
    rw [hresolve] at hsome
    cases hsome
  | some resolution =>
    by_cases hdecl : resolution.decl = decl
    · refine ⟨⟨next, copy.name, copy.fields⟩, count + 1, next + 1, ?_, Nat.le_succ next, (Nat.le_refl _),
        .inl ⟨⟨resolution, hresolve, hdecl⟩, next, (Nat.le_refl _), Nat.lt_succ_self next, rfl⟩⟩
      simp only [replacing, hresolve, hdecl, beq_self_eq_true, if_true]
      change (((copy.toExpr.freshCopy.run next).1, count + 1),
        (copy.toExpr.freshCopy.run next).2) = _
      rw [Spelled.run_freshCopy]
    · refine ⟨⟨id, name, []⟩, count, next, ?_, (Nat.le_refl _), Nat.le_succ next, .inr ⟨?_, rfl⟩⟩
      · simp only [replacing, hresolve, beq_eq_false_iff_ne.2 hdecl]
        rfl
      · rintro ⟨other, hsome, hother⟩
        rw [hresolve] at hsome
        cases hsome
        exact hdecl hother

theorem run_visitAll_cons (t : Traversal (StateT Nat Fresh)) (mention : Mention)
    (rest : List Mention) (count next : Nat) :
    ((t.visitAll (mention :: rest)).run count).run next =
      let first := ((t.visit mention).run count).run next
      let others := ((t.visitAll rest).run first.1.2).run first.2
      ((.cons first.1.1 others.1.1, others.1.2), others.2) := rfl

theorem run_visit_name (t : Traversal (StateT Nat Fresh)) (id : NodeId) (name : String)
    (count next : Nat) :
    ((t.visit (.name id name)).run count).run next =
      let answer := ((t.name id name).run count).run next
      ((.name answer.1.1, answer.1.2), answer.2) := rfl

/-- Spellings that agree on the names visited give the same answers. -/
theorem visitAll_congr {spelling spelling' : Spelling} (visited : List Mention)
    (h : ∀ name ∈ visited.filterMap Mention.name?,
      spelling name.1 name.2 = spelling' name.1 name.2) :
    Id.run (spelling.traversal.visitAll visited) =
      Id.run (spelling'.traversal.visitAll visited) := by
  induction visited with
  | nil => rfl
  | cons mention rest ih =>
    have hrest : ∀ name ∈ rest.filterMap Mention.name?,
        spelling name.1 name.2 = spelling' name.1 name.2 := by
      intro name hname
      refine h name ?_
      rw [List.filterMap_cons]
      split
      · exact hname
      · exact List.mem_cons_of_mem _ hname
    simp only [Traversal.visitAll, Id.run_bind, Id.run_pure, ih hrest]
    cases mention with
    | decl id => rfl
    | name id name =>
      have hname : spelling id name = spelling' id name := h (id, name) (by simp [Mention.name?])
      simp [Traversal.visit, hname]

/-- Visiting names in turn: all answers together are one spelling, under which the occurrences still have distinct identities. -/
theorem run_visitAll_replacing {scopes : BodyScopes} {decl : NodeId} {copy : Spelled}
    (visited : List Mention) (hnodup : ((visited.filterMap Mention.name?).map (·.1)).Nodup)
    (count next : Nat) (hbelow : ∀ name ∈ visited.filterMap Mention.name?, name.1 < next) :
    ∃ (spelling : Spelling) (count' next' : Nat),
      (((replacing scopes decl copy.toExpr).visitAll visited).run count).run next =
        ((Id.run (spelling.traversal.visitAll visited), count'), next') ∧ next ≤ next' ∧
      (∀ name ∈ visited.filterMap Mention.name?,
        Replaces scopes decl copy next next' name (spelling name.1 name.2)) ∧
      ((visited.filterMap Mention.name?).map fun name =>
        (spelling name.1 name.2).id).Nodup := by
  induction visited generalizing count next with
  | nil => exact ⟨.same, count, next, rfl, (Nat.le_refl _), by simp, by simp⟩
  | cons mention rest ih =>
    cases mention with
    | decl id =>
      obtain ⟨spelling, count', next', hrun, hle, hreplaces, hids⟩ := ih hnodup count next hbelow
      refine ⟨spelling, count', next', ?_, hle, hreplaces, hids⟩
      have hvisit : (((replacing scopes decl copy.toExpr).visit (.decl id)).run count).run next =
        ((.decl id, count), next) := rfl
      rw [run_visitAll_cons, hvisit]
      dsimp only
      rw [hrun]
      rfl
    | name id name =>
      have hcons : ((Mention.name id name) :: rest).filterMap Mention.name? =
          (id, name) :: rest.filterMap Mention.name? := rfl
      rw [hcons] at hnodup hbelow ⊢
      rw [List.map_cons, List.nodup_cons] at hnodup
      obtain ⟨hlt, hbelow⟩ := List.forall_mem_cons.1 hbelow
      obtain ⟨spelled, count₁, middle, hfirst, hle, -, hreplaced⟩ :=
        run_replacing_name scopes decl copy id name count next
      obtain ⟨spelling, count', next', hrun, hle', hreplaces, hids⟩ := ih hnodup.2 count₁ middle
        fun other hother => Nat.lt_of_lt_of_le (hbelow other hother) hle
      -- The identity of the first occurrence is not met again, so the spelling may answer it apart.
      have hne : ∀ other ∈ rest.filterMap Mention.name?, other.1 ≠ id := by
        intro other hother heq
        exact hnodup.1 (List.mem_map.2 ⟨other, hother, heq⟩)
      let apart : Spelling := Function.update spelling id fun _ => spelled
      have hself : apart id name = spelled := by simp [apart]
      have hsame : ∀ other ∈ rest.filterMap Mention.name?,
          apart other.1 other.2 = spelling other.1 other.2 :=
        fun other hother => congrFun (Function.update_of_ne (hne other hother) _ _) other.2
      refine ⟨apart, count', next', ?_, Nat.le_trans hle hle', ?_, ?_⟩
      · rw [run_visitAll_cons, run_visit_name, hfirst]
        dsimp only
        rw [hrun]
        simp only [Traversal.visitAll, Traversal.visit, Id.run_bind, Id.run_pure, Id.run_map,
          run_traversal_name, hself, visitAll_congr rest hsame]
      · refine List.forall_mem_cons.2 ⟨?_, fun other hother => ?_⟩
        · rw [hself]
          exact hreplaced.mono (Nat.le_refl _) hle'
        · rw [hsame other hother]
          exact (hreplaces other hother).mono hle (Nat.le_refl _)
      · rw [List.map_cons, hself, List.map_congr_left fun other hother =>
          congrArg Spelled.id (hsame other hother), List.nodup_cons]
        refine ⟨fun hmem => ?_, hids⟩
        obtain ⟨other, hother, heq⟩ := List.mem_map.1 hmem
        exact hreplaced.id_ne (hreplaces other hother) (hne other hother).symm hle hlt
          (hbelow other hother) heq.symm

theorem traverseOption_traversal (spelling : Spelling) (body : Option Block) :
    Id.run (Block.traverseOption spelling.traversal body) = body.map (Block.respell spelling) := by
  cases body <;> rfl

/-- Replacing the references to a declaration is a spelling of the method. -/
theorem run_replaceReferences {method : Method} {decl : NodeId} {copy : Spelled} {next : NodeId}
    (hids : method.Identified next) :
    ∃ spelling count next', (replaceReferences method decl copy.toExpr).run next =
        ((method.respell spelling, count), next') ∧ next ≤ next' ∧
      (∀ name ∈ method.names, Replaces (BodyScopes.ofMethod method) decl copy next next' name
        (spelling name.1 name.2)) ∧ (method.respell spelling).Identified next' := by
  have htrace := (Block.traverseOption_traced method.body).trace
  obtain ⟨rebuild, hrebuild⟩ := htrace.rebuild
  have hperm := htrace.names
  rw [← method.names_eq] at hperm
  obtain ⟨spelling, count, next', hrun, hle, hreplaces, hnodup⟩ :=
    @run_visitAll_replacing (BodyScopes.ofMethod method) decl copy _
      ((hperm.map _).nodup_iff.1 hids.nodup) 0 next
      fun name hname => hids.below name (hperm.mem_iff.2 hname)
  have hreplaces' : ∀ name ∈ method.names, Replaces (BodyScopes.ofMethod method) decl copy next
      next' name (spelling name.1 name.2) :=
    fun name hname => hreplaces name (hperm.mem_iff.1 hname)
  refine ⟨spelling, count, next', ?_, hle, hreplaces', ?_⟩
  · have hbody : ((Block.traverseOption (replacing (BodyScopes.ofMethod method) decl copy.toExpr)
        method.body).run 0).run next =
        ((method.body.map (Block.respell spelling), count), next') := by
      rw [← traverseOption_traversal, hrebuild, hrebuild, Id.run_map]
      change ((rebuild ((((replacing _ decl copy.toExpr).visitAll _).run 0).run next).1.1,
        ((((replacing _ decl copy.toExpr).visitAll _).run 0).run next).1.2),
        ((((replacing _ decl copy.toExpr).visitAll _).run 0).run next).2) = _
      rw [hrun]
    rw [replaceReferences, Fresh.run_bind, hbody]
    rfl
  · have hnames : (method.respell spelling).names = method.names.map fun name =>
        ((spelling name.1 name.2).id, (spelling name.1 name.2).name) := by
      rw [Method.names, Method.eventsOf_respell, namesOf_respell, Method.names]
    constructor
    · rw [hnames, List.map_map]
      exact (hperm.map _).nodup_iff.2 hnodup
    · rw [hnames]
      intro name hname
      obtain ⟨old, hold, rfl⟩ := List.mem_map.1 hname
      rcases hreplaces' old hold with ⟨-, fresh, -, hlt, hspelled⟩ | ⟨-, hspelled⟩ <;>
        rw [hspelled]
      · exact hlt
      · exact Nat.lt_of_lt_of_le (hids.below old hold) hle

/-! ### Several parameters -/

/-- The places where names occur in a method. -/
def placesOf (method : Method) : List (Place ScopeReader) :=
  ScopeReader.reading.places .start (BodyScopes.eventsOf method)

theorem placesOf_respell (spelling : Spelling) (method : Method) :
    placesOf (method.respell spelling) = (placesOf method).map (Place.respell spelling) := by
  rw [placesOf, Method.eventsOf_respell, Reading.places_respell, placesOf]

/-- Whether a name means a declaration in a state. -/
def Means (state : ScopeReader) (name : String) (decl : NodeId) : Prop :=
  ∃ resolution, ScopeReader.reading.meaning state name = some resolution ∧
    resolution.decl = decl

theorem name_mem_of_place {method : Method} {place : Place ScopeReader}
    (hplace : place ∈ placesOf method) : (place.id, place.name) ∈ method.names := by
  rw [Method.names, ScopeReader.reading.namesOf_eq .start]
  exact List.mem_map.2 ⟨place, hplace, rfl⟩

/-- The occurrence at a place refers to what its name means there. -/
theorem refersTo_iff_means {method : Method} {next decl : NodeId} (hids : method.Identified next)
    {place : Place ScopeReader} (hplace : place ∈ placesOf method) :
    RefersTo (BodyScopes.ofMethod method) decl place.id ↔ Means place.state place.name decl := by
  have hmem : ScopeReader.reading.refer place ∈ BodyScopes.referencesOf method :=
    List.mem_map.2 ⟨place, hplace, rfl⟩
  have hresolve : (BodyScopes.ofMethod method).resolve? place.id =
      ScopeReader.reading.meaning place.state place.name :=
    BodyScopes.resolve?_of_mem hids.references_nodup hmem
  rw [RefersTo, Means, hresolve]

/-- The fields that stand for a parameter once the carrier is in a variable. -/
def accessFields (locals : AdviceLocals) (param : NodeId) : List String :=
  match locals.fieldName? param with
  | some field => if locals.needsContainer then [field] else []
  | none => []

theorem run_access (locals : AdviceLocals) (var : String) (param next : NodeId) :
    (locals.access var param).run next =
      (Spelled.toExpr ⟨next, var, accessFields locals param⟩, next + 1) := by
  rw [AdviceLocals.access, accessFields, Fresh.run_bind, Expr.run_fresh]
  cases locals.fieldName? param with
  | none => rfl
  | some field => cases locals.needsContainer <;> rfl

/-- How names are spelled that are read from the carrier. The parameters are replaced one after the other, so a reference that has become the carrier is met again if the name of the carrier means a parameter that comes later. -/
structure ReadsFrom (locals : AdviceLocals) (var : String) (params : List NodeId) (next : NodeId)
    (method : Method) (spelling : Spelling) : Prop where
  kept : ∀ place ∈ placesOf method, (∀ param ∈ params, ¬ Means place.state place.name param) →
    spelling place.id place.name = ⟨place.id, place.name, []⟩
  named : ∀ place ∈ placesOf method, ∀ param ∈ params, Means place.state place.name param →
    (spelling place.id place.name).name = var
  handed : ∀ place ∈ placesOf method, ∀ before param after, params = before ++ param :: after →
    param ∉ before → Means place.state place.name param →
    (∀ later ∈ after, ¬ Means place.state var later) →
    ∃ fresh, next ≤ fresh ∧
      spelling place.id place.name = ⟨fresh, var, accessFields locals param⟩

theorem means_unique {state : ScopeReader} {name : String} {decl decl' : NodeId}
    (h : Means state name decl) (h' : Means state name decl') : decl = decl' := by
  obtain ⟨resolution, hmeaning, rfl⟩ := h
  obtain ⟨resolution', hmeaning', rfl⟩ := h'
  rw [hmeaning] at hmeaning'
  cases hmeaning'
  rfl

/-- What replacing the references to a declaration does to a place: it holds the copy if its name means the declaration, and stays as it is if not. -/
theorem place_replaced {method : Method} {param next next' : NodeId} {copy : Spelled}
    {spelling : Spelling} (hids : method.Identified next)
    (h : ∀ name ∈ method.names, Replaces (BodyScopes.ofMethod method) param copy next next' name
      (spelling name.1 name.2)) {place : Place ScopeReader} (hplace : place ∈ placesOf method) :
    (Means place.state place.name param ∧ ∃ fresh, next ≤ fresh ∧
        spelling place.id place.name = ⟨fresh, copy.name, copy.fields⟩ ∧
        place.respell spelling = ⟨place.state, fresh, copy.name⟩) ∨
      (¬ Means place.state place.name param ∧
        spelling place.id place.name = ⟨place.id, place.name, []⟩ ∧
        place.respell spelling = place) := by
  rw [← refersTo_iff_means hids hplace]
  rcases h _ (name_mem_of_place hplace) with ⟨hrefers, fresh, hfresh, -, hspelled⟩ |
    ⟨hrefers, hspelled⟩ <;> dsimp only at hrefers hspelled
  · exact .inl ⟨hrefers, fresh, hfresh, hspelled, by rw [Place.respell, hspelled]⟩
  · exact .inr ⟨hrefers, hspelled, by rw [Place.respell, hspelled]⟩

theorem respell_mem_placesOf {method : Method} (spelling : Spelling) {place : Place ScopeReader}
    (hplace : place ∈ placesOf method) :
    place.respell spelling ∈ placesOf (method.respell spelling) := by
  rw [placesOf_respell]
  exact List.mem_map_of_mem hplace

/-- An occurrence of the carrier is one after the other parameters are read as well. -/
theorem ReadsFrom.name_carrier {locals : AdviceLocals} {var : String} {params : List NodeId}
    {next fresh : NodeId} {method : Method} {spelling : Spelling} {state : ScopeReader}
    (h : ReadsFrom locals var params next method spelling)
    (hplace : ⟨state, fresh, var⟩ ∈ placesOf method) : (spelling fresh var).name = var := by
  by_cases hlater : ∃ later ∈ params, Means state var later
  · obtain ⟨later, hlater, hmeans⟩ := hlater
    exact h.named _ hplace later hlater hmeans
  · rw [h.kept _ hplace fun later hmem hmeans => hlater ⟨later, hmem, hmeans⟩]

/-- Reading one more parameter from the carrier before the others. -/
theorem ReadsFrom.cons {locals : AdviceLocals} {var : String} {param : NodeId}
    {params : List NodeId} {next middle next' : NodeId} {method : Method}
    {first second : Spelling} {copy : Spelled} (hids : method.Identified next)
    (hname : copy.name = var) (hfields : copy.fields = accessFields locals param)
    (hle : next ≤ middle)
    (hfirst : ∀ name ∈ method.names, Replaces (BodyScopes.ofMethod method) param copy next next'
      name (first name.1 name.2))
    (hsecond : ReadsFrom locals var params middle (method.respell first) second) :
    ReadsFrom locals var (param :: params) next method (first.comp second) := by
  subst hname
  refine ⟨fun place hplace hnone => ?_, fun place hplace other hother hmeans => ?_, ?_⟩
  · rcases place_replaced hids hfirst hplace with ⟨hmeans, -⟩ | ⟨-, hspelled, hsame⟩
    · exact absurd hmeans (hnone param List.mem_cons_self)
    · have hkept := hsecond.kept place (hsame ▸ respell_mem_placesOf first hplace)
        fun other hother => hnone other (List.mem_cons_of_mem _ hother)
      rw [Spelling.comp, hspelled, hkept]
      rfl
  · rcases place_replaced hids hfirst hplace with ⟨-, fresh, -, hspelled, hcarrier⟩ |
      ⟨hnot, hspelled, hsame⟩ <;> rw [Spelling.comp, hspelled]
    · exact hsecond.name_carrier (hcarrier ▸ respell_mem_placesOf first hplace)
    · rcases List.mem_cons.1 hother with rfl | hother
      · exact absurd hmeans hnot
      · exact hsecond.named place (hsame ▸ respell_mem_placesOf first hplace) other hother hmeans
  · intro place hplace before other after heq hbefore hmeans hafter
    have hrespelled := respell_mem_placesOf first hplace
    cases before with
    | nil =>
      cases heq
      rcases place_replaced hids hfirst hplace with ⟨-, fresh, hfresh, hspelled, hcarrier⟩ |
        ⟨hnot, -, -⟩
      · rw [hcarrier] at hrespelled
        have hkept := hsecond.kept _ hrespelled hafter
        refine ⟨fresh, hfresh, ?_⟩
        rw [Spelling.comp, hspelled, hkept, ← hfields]
        rfl
      · exact absurd hmeans hnot
    | cons earlier before =>
      cases heq
      rw [List.mem_cons, not_or] at hbefore
      rcases place_replaced hids hfirst hplace with ⟨hmeans', -⟩ | ⟨-, hspelled, hsame⟩
      · exact absurd (means_unique hmeans hmeans') hbefore.1
      · obtain ⟨fresh, hfresh, hspelled'⟩ := hsecond.handed place (hsame ▸ hrespelled) before
          other after rfl hbefore.2 hmeans hafter
        refine ⟨fresh, Nat.le_trans hle hfresh, ?_⟩
        rw [Spelling.comp, hspelled, hspelled']
        simp [Spelled.thenFields]

/-- Reading parameters from the carrier is a spelling of the method. -/
theorem run_readFromCarrier {locals : AdviceLocals} {var : String} {method : Method}
    {params : List NodeId} {next : NodeId} (hids : method.Identified next) :
    ∃ spelling next', (locals.readFromCarrier var method params).run next =
        (method.respell spelling, next') ∧ next ≤ next' ∧
      (method.respell spelling).Identified next' ∧
      ReadsFrom locals var params next method spelling := by
  induction params generalizing method next with
  | nil =>
    refine ⟨.same, next, by rw [Method.respell_same]; rfl, Nat.le_refl next,
      by rwa [Method.respell_same], ⟨fun _ _ _ => rfl, by simp, by simp⟩⟩
  | cons param rest ih =>
    have hids' : method.Identified (next + 1) :=
      ⟨hids.nodup, fun name hname => Nat.lt_succ_of_lt (hids.below name hname)⟩
    obtain ⟨first, count, middle, hfirst, hle, hreplaces, hmiddle⟩ := @run_replaceReferences _
      param ⟨next, var, accessFields locals param⟩ _ hids'
    obtain ⟨second, next', hrun, hle', hids'', hreads⟩ := ih hmiddle
    refine ⟨first.comp second, next', ?_, ?_, ?_, ?_⟩
    · rw [AdviceLocals.readFromCarrier, Fresh.run_bind, run_access, Fresh.run_bind, hfirst, hrun,
        Method.respell_respell]
    · exact Nat.le_trans (Nat.le_succ next) (Nat.le_trans hle hle')
    · rwa [← Method.respell_respell]
    · exact hreads.cons hids rfl rfl (Nat.le_trans (Nat.le_succ next) hle)
        fun name hname => (hreplaces name hname).mono (Nat.le_succ next) (Nat.le_refl _)

end AdviceMigration.Advice
