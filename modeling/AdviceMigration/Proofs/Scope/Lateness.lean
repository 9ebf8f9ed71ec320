import AdviceMigration.Proofs.Advice.References
import AdviceMigration.Proofs.Scope.Alignment
import AdviceMigration.Proofs.Scope.Dangling

/-!
# Looking names up late

Names are resolved while scopes are still being filled. This is the same as looking them up once all scopes are complete, except for a name that a pattern variable has as well: any other name is bound in a scope that has just been opened, before anything is looked up there. And whatever comes after a use, no local variable that is declared there is what the use refers to.
-/

namespace AdviceMigration.Scope

open AdviceMigration.Source

/-! ### Scopes as they are filled -/

/-- Whether each scope but the first has one around it, with a smaller number. -/
def Nested (scopes : Array ScopeData) : Prop :=
  ∀ (scope : Nat) (data : ScopeData), scopes[scope]? = some data →
    (scope = 0 ∧ data.parent = none) ∨ ∃ parent, data.parent = some parent ∧ parent < scope

namespace Nested

variable {scopes : Array ScopeData}

theorem ordered (h : Nested scopes) : Ordered scopes := by
  intro scope data parent hdata hparent
  rcases h scope data hdata with ⟨-, hnone⟩ | ⟨parent', hparent', hlt⟩
  · rw [hnone] at hparent
    cases hparent
  · rw [hparent'] at hparent
    cases hparent
    exact hlt

theorem push (h : Nested scopes) {current : Nat} (hcurrent : current < scopes.size) :
    Nested (scopes.push ⟨some current, []⟩) := by
  intro scope data hdata
  rw [Array.getElem?_push] at hdata
  split at hdata
  next heq =>
    cases hdata
    exact .inr ⟨current, rfl, heq ▸ hcurrent⟩
  next => exact h scope data hdata

theorem modify (h : Nested scopes) (current : Nat) (name : String) (resolution : Resolution) :
    Nested (scopes.modify current fun data => data.insert name resolution) := by
  intro scope data hdata
  rw [Array.getElem?_modify] at hdata
  split at hdata
  · obtain ⟨old, hold, rfl⟩ := Option.map_eq_some_iff.1 hdata
    exact h scope old hold
  · exact h scope data hdata

end Nested

/-- Whether the scopes that a reader may return to, and those of the occurrences it has met, exist. -/
structure Rooted (reader : ScopeReader) : Prop where
  nested : Nested reader.scopes
  current : reader.current < reader.scopes.size
  held : ∀ scope ∈ reader.held, scope < reader.scopes.size
  uses : ∀ occurrence ∈ reader.uses, occurrence.scope < reader.scopes.size

namespace Rooted

theorem take {reader : ScopeReader} (h : Rooted reader) (event : Event) :
    Rooted (reader.take event) := by
  obtain ⟨scopes, current, held, uses⟩ := reader
  obtain ⟨hnested, hcurrent, hheld, huses⟩ := h
  cases event with
  | effect => exact ⟨hnested, hcurrent, hheld, huses⟩
  | hold => exact ⟨hnested, hcurrent, List.forall_mem_cons.2 ⟨hcurrent, hheld⟩, huses⟩
  | «open» =>
    have hsize : (scopes.push ⟨some current, []⟩).size = scopes.size + 1 := Array.size_push _
    refine ⟨hnested.push hcurrent, hsize ▸ Nat.lt_succ_self _, ?_, ?_⟩
    · exact fun scope hmem => hsize ▸ Nat.lt_succ_of_lt (hheld scope hmem)
    · exact fun occurrence hmem => hsize ▸ Nat.lt_succ_of_lt (huses occurrence hmem)
  | release =>
    cases held with
    | nil => exact ⟨hnested, hcurrent, hheld, huses⟩
    | cons scope held =>
      obtain ⟨hscope, hheld⟩ := List.forall_mem_cons.1 hheld
      exact ⟨hnested, hscope, hheld, huses⟩
  | swap =>
    cases held with
    | nil => exact ⟨hnested, hcurrent, hheld, huses⟩
    | cons scope held =>
      obtain ⟨hscope, hheld⟩ := List.forall_mem_cons.1 hheld
      exact ⟨hnested, hscope, List.forall_mem_cons.2 ⟨hcurrent, hheld⟩, huses⟩
  | bind binder name id =>
    have hsize : (scopes.modify current fun data =>
        data.insert name (binder.resolution id)).size = scopes.size := Array.size_modify ..
    exact ⟨hnested.modify _ _ _, hsize ▸ hcurrent, fun scope hmem => hsize ▸ hheld scope hmem,
      fun occurrence hmem => hsize ▸ huses occurrence hmem⟩
  | use role name id =>
    exact ⟨hnested, hcurrent, hheld, List.forall_mem_cons.2 ⟨hcurrent, huses⟩⟩

theorem foldl (events : List Event) {reader : ScopeReader} (h : Rooted reader) :
    Rooted (events.foldl ScopeReader.take reader) := by
  induction events generalizing reader with
  | nil => exact h
  | cons event rest ih => exact ih (h.take event)

theorem start : Rooted .start := by
  refine ⟨fun scope data hdata => ?_, by decide, List.forall_mem_nil _, List.forall_mem_nil _⟩
  cases scope with
  | zero =>
    cases hdata
    exact .inl ⟨rfl, rfl⟩
  | succ scope => cases hdata

end Rooted

/-! ### Names bound in time -/

/-- Whether a name is bound only in scopes that have just been opened and in which nothing has been looked up; `fresh` says whether the current scope is such a one. -/
def Timely (name : String) : (fresh : Bool) → List Event → Prop
  | _, [] => True
  | fresh, .bind _ other _ :: rest => (other = name → fresh = true) ∧ Timely name fresh rest
  | fresh, .effect :: rest => Timely name fresh rest
  | _, .open :: rest => Timely name true rest
  | _, .use _ _ _ :: rest => Timely name false rest
  | _, .hold :: rest => Timely name false rest
  | _, .release :: rest => Timely name false rest
  | _, .swap :: rest => Timely name false rest

namespace Timely

variable {name : String} {events events' : List Event}

theorem of_false (h : Timely name false events) (fresh : Bool) : Timely name fresh events := by
  induction events with
  | nil => trivial
  | cons event rest ih =>
    cases event with
    | bind binder other id => exact ⟨fun heq => absurd (h.1 heq) (by decide), ih h.2⟩
    | effect => exact ih h
    | _ => exact h

theorem append {fresh : Bool} (h : Timely name fresh events) (h' : Timely name false events') :
    Timely name fresh (events ++ events') := by
  induction events generalizing fresh with
  | nil => exact h'.of_false fresh
  | cons event rest ih =>
    cases event with
    | bind binder other id => exact ⟨h.1, ih h.2⟩
    | _ => exact ih h

theorem binds {binds : List Event} (hbinds : ∀ event ∈ binds,
    ∃ binder name id, event = .bind binder name id) (h : Timely name true events) :
    Timely name true (binds ++ events) := by
  induction binds with
  | nil => exact h
  | cons event rest ih =>
    obtain ⟨binder, other, id, rfl⟩ := hbinds event List.mem_cons_self
    exact ⟨fun _ => rfl, ih fun event hmem => hbinds event (List.mem_cons_of_mem _ hmem)⟩

end Timely

/-- Only pattern variables are bound late. -/
theorem Phrase.timely {form : Form} {events : List Event} {name : String} (h : Phrase form events)
    (hfree : ∀ id, .bind .pattern name id ∉ events) : Timely name false events := by
  induction h with
  | nil => trivial
  | append _ _ ih ih' =>
    exact (ih fun id hmem => hfree id (List.mem_append_left _ hmem)).append
      (ih' fun id hmem => hfree id (List.mem_append_right _ hmem))
  | statements _ ih => exact ih hfree
  | cases _ ih => exact ih hfree
  | effect => trivial
  | use => trivial
  | @pattern other id =>
    refine ⟨fun heq => ?_, trivial⟩
    subst heq
    exact absurd List.mem_cons_self (hfree id)
  | declare => exact ⟨fun _ => rfl, trivial⟩
  | outside _ ih =>
    have hinner := ih fun id hmem => hfree id (by simp [Scope.outside, hmem])
    exact hinner.append trivial
  | @enclosed binds events hbinds _ ih =>
    have hinner := ih fun id hmem => hfree id (by simp [Scope.enclosed, hmem])
    have hrest : Timely name false (events ++ [Event.release]) := hinner.append trivial
    have hbound := Timely.binds hbinds (hrest.of_false true)
    rwa [← List.append_assoc] at hbound
  | held _ ih =>
    have hinner := ih fun id hmem => hfree id (by simp [Scope.held, hmem])
    exact hinner.append trivial

/-- Whether a name still means, where it occurs, what it was found to mean. -/
def Lasts (name : String) (reader : ScopeReader) : Prop :=
  ∀ occurrence ∈ reader.uses, occurrence.name = name →
    meaning reader.scopes occurrence.scope name = occurrence.resolution

/-- Whether the current scope is the last one, and nothing has been looked up in it. -/
structure Unread (reader : ScopeReader) : Prop where
  last : reader.current + 1 = reader.scopes.size
  uses : ∀ occurrence ∈ reader.uses, occurrence.scope < reader.current

namespace Lasts

variable {name : String} {reader : ScopeReader}

theorem «open» (h : Lasts name reader) (hrooted : Rooted reader) :
    Lasts name (reader.take .open) ∧ Unread (reader.take .open) := by
  refine ⟨fun occurrence hmem hname => ?_, (Array.size_push _).symm, hrooted.uses⟩
  exact (meaning_push hrooted.nested.ordered _ (hrooted.uses occurrence hmem) name).trans
    (h occurrence hmem hname)

/-- A name bound where nothing has been looked up changes nothing that has been found. -/
theorem bind (h : Lasts name reader) (hrooted : Rooted reader) {binder : Binder} {other : String}
    {id : NodeId} (hunread : other = name → Unread reader) :
    Lasts name (reader.take (.bind binder other id)) := by
  intro occurrence hmem hname
  refine Eq.trans ?_ (h occurrence hmem hname)
  by_cases heq : other = name
  · exact meaning_modify_of_lt hrooted.nested.ordered ((hunread heq).uses occurrence hmem) _ _ _
  · exact meaning_modify_of_ne (Ne.symm heq) _ _ _

theorem use (h : Lasts name reader) (role : Role) (other : String) (id : NodeId) :
    Lasts name (reader.take (.use role other id)) := by
  refine List.forall_mem_cons.2 ⟨fun hname => ?_, h⟩
  subst hname
  rfl

/-- Names bound in time mean the same however late they are looked up. -/
theorem foldl {fresh : Bool} {events : List Event} (h : Lasts name reader)
    (hrooted : Rooted reader) (hfresh : fresh = true → Unread reader)
    (hevents : Timely name fresh events) : Lasts name (events.foldl ScopeReader.take reader) := by
  have hnever : false = true → ∀ reader, Unread reader := fun hfalse => absurd hfalse (by decide)
  induction events generalizing reader fresh with
  | nil => exact h
  | cons event rest ih =>
    have hrest := hrooted.take event
    cases event with
    | effect => exact ih h hrest hfresh hevents
    | «open» => exact ih (h.open hrooted).1 hrest (fun _ => (h.open hrooted).2) hevents
    | bind binder other id =>
      refine ih (h.bind hrooted fun heq => hfresh (hevents.1 heq)) hrest (fun htrue => ?_) hevents.2
      exact ⟨(hfresh htrue).last.trans (Array.size_modify ..).symm, (hfresh htrue).uses⟩
    | use role other id => exact ih (h.use role other id) hrest (hnever · _) hevents
    | hold => exact ih h hrest (hnever · _) hevents
    | release =>
      refine ih ?_ hrest (hnever · _) hevents
      obtain ⟨scopes, current, held, uses⟩ := reader
      cases held <;> exact h
    | swap =>
      refine ih ?_ hrest (hnever · _) hevents
      obtain ⟨scopes, current, held, uses⟩ := reader
      cases held <;> exact h

end Lasts

/-! ### Declarations around a use -/

/-- What is bound in scopes comes from the events that were read. -/
theorem BoundBy.after {all events : List Event} {reader : ScopeReader} (hsub : events ⊆ all)
    (h : BoundBy all reader.scopes) :
    BoundBy all (ScopeReader.reading.after reader events).scopes := by
  induction events generalizing reader with
  | nil => exact h
  | cons event rest ih =>
    obtain ⟨hmem, hrest⟩ := List.cons_subset.1 hsub
    exact ih hrest (h.move hmem)

theorem mem_declaredIn {events : List Event} {binder : Binder} {name : String} {id : NodeId}
    (hbinder : binder ≠ .enumConstant) (h : .bind binder name id ∈ events) :
    id ∈ declaredIn events := by
  obtain ⟨front, back, rfl⟩ := List.append_of_mem h
  simp [hbinder]

theorem ne_enumConstant_of_resolution {binder : Binder} {id decl : NodeId}
    (h : binder.resolution id = .variable decl) : binder ≠ .enumConstant ∧ id = decl := by
  cases binder <;> cases h <;> exact ⟨by decide, rfl⟩

namespace BodyScopes

theorem declaredIn_eventsOf (method : Method) : declaredIn (eventsOf method) =
    method.params.map (·.id) ++ declaredIn (Block.eventsOption method.body) := by
  rw [eventsOf, declaredIn_append, declaredIn_map_bind (by decide)]

/-- What a traversal of a method meets as declarations is met once. -/
theorem nodup_decls {method : Method} (hdistinct : Distinct method.mentions) :
    (method.params.map (·.id) ++ (visitedBy fun _ _ t =>
      Block.traverseOption t method.body).filterMap Mention.decl?).Nodup := by
  have hdecls : ∀ mentions : List Mention,
      (mentions.filterMap Mention.decl?).Sublist (mentions.map Mention.id) := by
    intro mentions
    induction mentions with
    | nil => exact .slnil
    | cons mention rest ih =>
      cases mention with
      | decl id => exact ih.cons_cons _
      | name id name => exact ih.cons _
  rw [Method.mentions_eq, Distinct, List.map_cons, List.map_append, List.map_map] at hdistinct
  exact (List.nodup_cons.1 hdistinct).2.sublist ((List.Sublist.refl _).append (hdecls _))

/-- A method declares nothing twice. -/
theorem nodup_declaredIn {method : Method} (hdistinct : Distinct method.mentions) :
    (declaredIn (eventsOf method)).Nodup := by
  have hbody := (Block.traverseOption_traced method.body).trace.declares
  obtain ⟨common, hperm, hsub⟩ := (List.Subperm.refl (method.params.map (·.id))).append hbody
  rw [declaredIn_eventsOf]
  exact hperm.nodup_iff.1 ((nodup_decls hdistinct).sublist hsub)

/-- What a use refers to is looked up in the scopes of the events before it. -/
theorem resolve?_of_eventsOf {method : Method} (hdistinct : Distinct method.mentions)
    {front back : List Event} {role : Role} {name : String} {id : NodeId}
    (hevents : eventsOf method = front ++ Event.use role name id :: back) :
    (ofMethod method).resolve? id =
      ScopeReader.reading.meaning (ScopeReader.reading.after .start front) name := by
  have hmem : ⟨id, name, ScopeReader.reading.meaning (ScopeReader.reading.after .start front) name⟩
      ∈ referencesOf method := by
    rw [referencesOf, hevents, Reading.references_append, Reading.references_use]
    exact List.mem_append_right _ List.mem_cons_self
  exact resolve?_of_mem (Method.references_nodup hdistinct.nodup_names) hmem

theorem lasts_ofMethod {method : Method} {name : String}
    (hfree : ∀ id, .bind .pattern name id ∉ eventsOf method) :
    Lasts name ((eventsOf method).foldl ScopeReader.take .start) := by
  have htimely : Timely name true (eventsOf method) := by
    refine .binds (binds_map .methodParam Param.name Param.id method.params) ?_
    exact ((Block.phraseOption method.body).timely fun id hmem =>
      hfree id (List.mem_append_right _ hmem)).of_false true
  refine Lasts.foldl (List.forall_mem_nil _) .start (fun _ => ⟨rfl, List.forall_mem_nil _⟩) htimely

theorem rooted_ofMethod (method : Method) :
    Rooted ((eventsOf method).foldl ScopeReader.take .start) :=
  .foldl _ .start

/-- A name that occurs has a scope. -/
theorem exists_scopeOf? {method : Method} {id : NodeId} {name : String}
    (hdistinct : Distinct method.mentions) (hmem : .name id name ∈ method.mentions) :
    ∃ occurrence ∈ (ofMethod method).uses, occurrence.name = name ∧
      (ofMethod method).use? id = some occurrence := by
  have hname := Method.mem_names_iff.2 hmem
  rw [Method.names, ScopeReader.reading.namesOf_eq .start] at hname
  obtain ⟨place, hplace, heq⟩ := List.mem_map.1 hname
  obtain ⟨rfl, rfl⟩ := Prod.mk.inj heq
  obtain ⟨occurrence, hoccurrence, hreference⟩ :=
    exists_use_iff.1 (List.mem_map.2 ⟨place, hplace, rfl⟩)
  obtain ⟨hid, hname, -⟩ := Reference.mk.inj hreference
  refine ⟨occurrence, hoccurrence, hname, ?_⟩
  have hnodup := Method.references_nodup hdistinct.nodup_names
  rw [← map_uses_ofMethod, List.map_map] at hnodup
  exact hid ▸ find?_id_of_mem hnodup hoccurrence

/-- Every name has a scope, and every scope but the first one around it. A name that no pattern variable has means in its scope what it was resolved to. A variable that a name refers to is declared before the name, and not after it. -/
theorem resolve?_eq_resolveIn? {method : Method} (hdistinct : Distinct method.mentions) :
    (∀ id name, .name id name ∈ method.mentions → ∃ scope,
      (ofMethod method).scopeOf? id = some scope ∧ scope < (ofMethod method).scopes.size ∧
      ((∀ pattern, .bind .pattern name pattern ∉ eventsOf method) →
        (ofMethod method).resolve? id = (ofMethod method).resolveIn? scope name)) ∧
    (∀ scope data, (ofMethod method).scopes[scope]? = some data → scope ≠ 0 →
      ∃ parent, data.parent = some parent ∧ parent < scope) ∧
    ∀ front role name id back, eventsOf method = front ++ .use role name id :: back →
      ∀ decl, (ofMethod method).resolve? id = some (.variable decl) →
        (∃ binder, .bind binder name decl ∈ front) ∧
        ∀ binder other, binder.resolution decl = .variable decl →
          .bind binder other decl ∉ back := by
  have hrooted := rooted_ofMethod method
  refine ⟨fun id name hmem => ?_, fun scope data hdata hne => ?_, ?_⟩
  · obtain ⟨occurrence, hoccurrence, rfl, huse⟩ := exists_scopeOf? hdistinct hmem
    have hread := List.mem_reverse.1 hoccurrence
    refine ⟨occurrence.scope, by rw [scopeOf?, huse]; rfl, hrooted.uses _ hread, fun hfree => ?_⟩
    rw [resolve?, huse]
    exact (lasts_ofMethod hfree occurrence hread rfl).symm
  · exact (hrooted.nested scope data hdata).resolve_left fun hroot => hne hroot.1
  · intro front role name id back hevents decl hresolve
    rw [resolve?_of_eventsOf hdistinct hevents] at hresolve
    obtain ⟨binder, bound, hbind, hresolution⟩ :=
      ((BoundBy.start front).after (List.Subset.refl _)).lookup hresolve
    obtain ⟨hbinder, rfl⟩ := ne_enumConstant_of_resolution hresolution
    refine ⟨⟨binder, hbind⟩, fun later other hlater hmem => ?_⟩
    have hnodup := nodup_declaredIn hdistinct
    rw [hevents, declaredIn_append] at hnodup
    exact (List.nodup_append.1 hnodup).2.2 bound (mem_declaredIn hbinder hbind) bound
      (mem_declaredIn (ne_enumConstant_of_resolution hlater).1 (List.mem_cons_of_mem _ hmem)) rfl

/-- A method with the body `y = x; int y = x; y = x instanceof T z;`. -/
def lateMethod : Method :=
  ⟨0, .unwritten, [], [], [], some .void, "enter", [⟨1, [], [], .primitive .int, false, "x"⟩], [],
    some (.ofStmts [.ofKind (.expr (.assign (.name 2 "y") .assign (.name 3 "x"))),
      .ofKind (.localVar (.single 4 (.primitive .int) "y" (.name 5 "x"))),
      .ofKind (.expr (.assign (.name 6 "y") .assign
        (.instanceOf (.name 7 "x") (.simple "T") (some ⟨8, false, "z"⟩))))])⟩

/-- The first `y` leaves the method, the second one is the variable declared before it. -/
theorem resolve?_eq_resolveIn?_lateMethod :
    Distinct lateMethod.mentions ∧
    (ofMethod lateMethod).resolve? 2 = none ∧
    (ofMethod lateMethod).resolve? 6 = some (.variable 4) ∧
    ∃ scope, (ofMethod lateMethod).scopeOf? 6 = some scope ∧
      (ofMethod lateMethod).resolveIn? scope "y" = some (.variable 4) := by
  have hdistinct : Distinct lateMethod.mentions := by
    rw [Distinct]
    decide
  obtain ⟨hnames, -, -⟩ := resolve?_eq_resolveIn? hdistinct
  obtain ⟨scope, hscope, -, hlate⟩ := hnames 6 "y" (by decide)
  have hresolve : (ofMethod lateMethod).resolve? 6 = some (.variable 4) := by decide
  refine ⟨hdistinct, by decide, hresolve, scope, hscope, ?_⟩
  rw [← hlate fun pattern hmem => ?_, hresolve]
  have hfree : ∀ event ∈ eventsOf lateMethod, ∀ pattern, event ≠ .bind .pattern "y" pattern := by
    simp [eventsOf, lateMethod, Block.ofStmts, Stmt.ofKind, LocalVar.single, Block.eventsOption,
      Block.events, Stmt.eventsList, Stmt.events, StmtKind.events, Expr.events, LocalVar.events,
      Declarator.eventsList, Expr.eventsOption, enclosed]
  exact hfree _ hmem pattern rfl

end BodyScopes

end AdviceMigration.Scope
