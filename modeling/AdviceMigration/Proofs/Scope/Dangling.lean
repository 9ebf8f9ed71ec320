import AdviceMigration.Proofs.Scope.Phrases

/-!
# Names that refer to nothing

An edit of a body must not leave names behind whose declaration is gone. Events before and after an edit are read side by side: the names that mean something before mean something after, apart from the declarations that the edit took away. A name that refers to nothing after the edit then referred to nothing before, or to a declaration that is gone, or the edit put it there.
-/

namespace AdviceMigration.Scope

open AdviceMigration.Source

/-! ### Two readings side by side -/

/-- Whether all names that mean anything but a declaration in `gone` mean something in another scope. -/
def Keeping (gone : List NodeId) (names names' : Names) : Prop :=
  ∀ name resolution, names name = some resolution → resolution.decl ∉ gone →
    ∃ resolution', names' name = some resolution'

/-- Whether this holds of the current scope and of each scope remembered. -/
structure Covers (gone : List NodeId) (view view' : View) : Prop where
  names : Keeping gone view.names view'.names
  held : List.Forall₂ (Keeping gone) view.held view'.held

@[simp] theorem Binder.decl_resolution (binder : Binder) (id : NodeId) :
    (binder.resolution id).decl = id := by
  cases binder <;> rfl

namespace Keeping

variable {gone : List NodeId} {names names' : Names}

theorem refl (names : Names) : Keeping gone names names := fun _ resolution h _ => ⟨resolution, h⟩

/-- A name that is bound before is bound after. -/
theorem set (h : Keeping gone names names') (name : String) (resolution : Resolution) :
    Keeping gone (names.set name resolution) (names'.set name resolution) := by
  intro other found hother hgone
  rw [Names.set] at hother ⊢
  split
  next => exact ⟨resolution, rfl⟩
  next hne =>
    rw [if_neg hne] at hother
    exact h other found hother hgone

/-- A declaration that goes takes its name away. -/
theorem set_left (h : Keeping gone names names') (name : String) {resolution : Resolution}
    (hgone : resolution.decl ∈ gone) : Keeping gone (names.set name resolution) names' := by
  intro other found hother hfound
  rw [Names.set] at hother
  split at hother
  · cases hother
    exact absurd hgone hfound
  · exact h other found hother hfound

theorem set_right (h : Keeping gone names names') (name : String) (resolution : Resolution) :
    Keeping gone names (names'.set name resolution) := by
  intro other found hother hgone
  rw [Names.set]
  split
  · exact ⟨resolution, rfl⟩
  · exact h other found hother hgone

end Keeping

namespace Covers

variable {gone : List NodeId} {view view' : View}

theorem refl (view : View) : Covers gone view view :=
  ⟨.refl _, List.forall₂_same.2 fun _ _ => .refl _⟩

theorem move (h : Covers gone view view') (event : Event) :
    Covers gone (View.reading.move view event) (View.reading.move view' event) := by
  obtain ⟨names, held⟩ := view
  obtain ⟨names', held'⟩ := view'
  obtain ⟨hnames, hheld⟩ := h
  cases event with
  | use role name id => exact ⟨hnames, hheld⟩
  | effect => exact ⟨hnames, hheld⟩
  | «open» => exact ⟨hnames, hheld⟩
  | bind binder name id => exact ⟨hnames.set name _, hheld⟩
  | hold => exact ⟨hnames, .cons hnames hheld⟩
  | release =>
    cases hheld with
    | nil => exact ⟨hnames, .nil⟩
    | cons hfirst hrest => exact ⟨hfirst, hrest⟩
  | swap =>
    cases hheld with
    | nil => exact ⟨hnames, .nil⟩
    | cons hfirst hrest => exact ⟨hfirst, .cons hnames hrest⟩

end Covers

/-- What a name that refers to nothing was before an edit that takes the declarations `gone` away. -/
def Dangled (gone : List NodeId) (references : List Reference) (reference : Reference) : Prop :=
  ∃ resolution, ⟨reference.id, reference.name, resolution⟩ ∈ references ∧
    ∀ found, resolution = some found → found.decl ∈ gone

/-- Whether events make way for others: names that refer to nothing among the others were `named` by the edit or did so before, if not to a declaration that is gone. -/
def MakesWay (gone : List NodeId) (named : List String) (events events' : List Event) : Prop :=
  ∀ view view', Covers gone view view' →
    Covers gone (View.reading.after view events) (View.reading.after view' events') ∧
    ∀ reference ∈ View.reading.references view' events', reference.resolution = none →
      reference.name ∈ named ∨ Dangled gone (View.reading.references view events) reference

namespace MakesWay

variable {gone : List NodeId} {named : List String} {events events' before before' : List Event}

theorem append (h : MakesWay gone named before before') (h' : MakesWay gone named events events') :
    MakesWay gone named (before ++ events) (before' ++ events') := by
  intro view view' hcovers
  obtain ⟨hmiddle, hbefore⟩ := h view view' hcovers
  obtain ⟨hafter, hevents⟩ := h' _ _ hmiddle
  rw [Reading.after_append, Reading.after_append, Reading.references_append,
    Reading.references_append]
  refine ⟨hafter, fun reference hreference hnone => ?_⟩
  rcases List.mem_append.1 hreference with hreference | hreference
  · rcases hbefore reference hreference hnone with hnamed | ⟨resolution, hmem, hgone⟩
    · exact .inl hnamed
    · exact .inr ⟨resolution, List.mem_append_left _ hmem, hgone⟩
  · rcases hevents reference hreference hnone with hnamed | ⟨resolution, hmem, hgone⟩
    · exact .inl hnamed
    · exact .inr ⟨resolution, List.mem_append_right _ hmem, hgone⟩

theorem single (event : Event) : MakesWay gone named [event] [event] := by
  intro view view' hcovers
  refine ⟨hcovers.move event, fun reference hreference hnone => ?_⟩
  cases event with
  | use role name id =>
    rw [Reading.references_use, Reading.references_nil, List.mem_singleton] at hreference
    subst hreference
    refine .inr ⟨_, List.mem_cons_self, fun found hfound => ?_⟩
    by_contra hgone
    obtain ⟨resolution', hresolution'⟩ := hcovers.names name found hfound hgone
    have hmeaning : view'.names name = none := hnone
    rw [hmeaning] at hresolution'
    cases hresolution'
  | _ => cases hreference

/-- Events that stay make way for themselves. -/
theorem refl (events : List Event) : MakesWay gone named events events := by
  induction events with
  | nil => exact fun view view' hcovers => ⟨hcovers, fun _ hreference => nomatch hreference⟩
  | cons event rest ih => exact (single event).append ih

theorem within (h : MakesWay gone named events events') (before after : List Event) :
    MakesWay gone named (before ++ events ++ after) (before ++ events' ++ after) :=
  ((refl before).append h).append (refl after)

end MakesWay

theorem Keeping.trans {names names' names'' : Names} (h : Keeping [] names names')
    (h' : Keeping [] names' names'') : Keeping [] names names'' := by
  intro name resolution hname _
  obtain ⟨resolution', hname'⟩ := h name resolution hname List.not_mem_nil
  exact h' name resolution' hname' List.not_mem_nil

theorem Covers.trans {view view' view'' : View} (h : Covers [] view view')
    (h' : Covers [] view' view'') : Covers [] view view'' := by
  obtain ⟨names, held⟩ := view
  obtain ⟨names', held'⟩ := view'
  obtain ⟨names'', held''⟩ := view''
  obtain ⟨hnames, hheld⟩ := h
  obtain ⟨hnames', hheld'⟩ := h'
  refine ⟨hnames.trans hnames', ?_⟩
  dsimp only at hheld hheld' ⊢
  clear hnames hnames'
  induction hheld generalizing held'' with
  | nil => exact hheld'
  | cons hfirst _ ih =>
    cases hheld' with
    | cons hfirst' hrest' => exact .cons (hfirst.trans hfirst') (ih _ hrest')

/-- Edits that take nothing away, one after the other. -/
theorem MakesWay.trans {named : List String} {events events' events'' : List Event}
    (h : MakesWay [] named events events') (h' : MakesWay [] named events' events'') :
    MakesWay [] named events events'' := by
  intro view view'' hcovers
  obtain ⟨hafter, hreferences⟩ := h view view (.refl view)
  obtain ⟨hafter', hreferences'⟩ := h' view view'' hcovers
  refine ⟨hafter.trans hafter', fun reference hmem hnone => ?_⟩
  rcases hreferences' reference hmem hnone with hnamed | ⟨resolution, hmem', hgone⟩
  · exact .inl hnamed
  · cases resolution with
    | none => exact hreferences ⟨reference.id, reference.name, none⟩ hmem' rfl
    | some found => exact nomatch hgone found rfl

/-! ### Expressions -/

/-- What an expression says leaves a view as it was. -/
theorem Phrase.after_eq {events : List Event} (h : Phrase .expression events)
    (hfree : PatternFree events) (view : View) : View.reading.after view events = view := by
  obtain ⟨names, held⟩ := view
  obtain ⟨names', hsame, hbelow⟩ := h.framed hfree names [] (by simp)
  obtain rfl := hsame rfl
  exact (hbelow held).1

theorem patternFree_nil : PatternFree [] := fun _ _ hmem => nomatch hmem

/-- Expressions make way for expressions that mention what they mention. -/
theorem MakesWay.of_expression {gone : List NodeId} {named : List String} {events events' : List Event}
    (h : Phrase .expression events) (hfree : PatternFree events) (h' : Phrase .expression events')
    (hfree' : PatternFree events')
    (hsub : ∀ view, ∀ reference ∈ View.reading.references view events',
      reference.name ∈ named ∨ reference ∈ View.reading.references view events) :
    MakesWay gone named events events' := by
  intro view view' hcovers
  rw [h.after_eq hfree, h'.after_eq hfree']
  refine ⟨hcovers, fun reference hreference hnone => ?_⟩
  rcases hsub view' reference hreference with hnamed | hmem
  · exact .inl hnamed
  · exact (MakesWay.refl events view view' hcovers).2 reference hmem hnone

/-- Expressions side by side are read in one view. -/
theorem Phrase.references_append {events events' : List Event} (h : Phrase .expression events)
    (hfree : PatternFree events) (view : View) :
    View.reading.references view (events ++ events') =
      View.reading.references view events ++ View.reading.references view events' := by
  rw [Reading.references_append, h.after_eq hfree]

theorem patternFree_eventsList {exprs : List Expr} :
    PatternFree (Expr.eventsList exprs) ↔ ∀ expr ∈ exprs, PatternFree expr.events := by
  induction exprs with
  | nil => exact ⟨fun _ => List.forall_mem_nil _, fun _ => patternFree_nil⟩
  | cons expr rest ih => rw [Expr.eventsList, patternFree_append, ih, List.forall_mem_cons]

theorem references_eventsList {exprs : List Expr} (hfree : PatternFree (Expr.eventsList exprs))
    (view : View) : View.reading.references view (Expr.eventsList exprs) =
      exprs.flatMap fun expr => View.reading.references view expr.events := by
  induction exprs with
  | nil => rfl
  | cons expr rest ih =>
    rw [Expr.eventsList, patternFree_append] at hfree
    rw [Expr.eventsList, expr.phrase.references_append hfree.1, ih hfree.2, List.flatMap_cons]

/-- A name occurs where the events use it. -/
theorem exists_use_of_reference {view : View} {events : List Event} {reference : Reference}
    (h : reference ∈ View.reading.references view events) :
    ∃ role, .use role reference.name reference.id ∈ events := by
  induction events generalizing view with
  | nil => cases h
  | cons event rest ih =>
    cases event with
    | use role name id =>
      rw [Reading.references_use] at h
      rcases List.mem_cons.1 h with rfl | h
      · exact ⟨role, List.mem_cons_self⟩
      · obtain ⟨role', hrole'⟩ := ih h
        exact ⟨role', List.mem_cons_of_mem _ hrole'⟩
    | _ =>
      obtain ⟨role', hrole'⟩ := ih h
      exact ⟨role', List.mem_cons_of_mem _ hrole'⟩

/-! ### Rewriting -/

/-- Whether events without pattern variables make way for others without pattern variables. -/
def Recasts (gone : List NodeId) (named : List String) (events events' : List Event) : Prop :=
  PatternFree events → PatternFree events' ∧ MakesWay gone named events events'

namespace Recasts

variable {gone : List NodeId} {named : List String} {events events' events'' : List Event}

theorem refl (events : List Event) : Recasts gone named events events := fun hfree =>
  ⟨hfree, .refl _⟩

theorem trans (h : Recasts [] named events events') (h' : Recasts [] named events' events'') :
    Recasts [] named events events'' := by
  intro hfree
  obtain ⟨hfree', hmakes⟩ := h hfree
  obtain ⟨hfree'', hmakes'⟩ := h' hfree'
  exact ⟨hfree'', hmakes.trans hmakes'⟩

theorem within (h : Recasts gone named events events') (before after : List Event) :
    Recasts gone named (before ++ events ++ after) (before ++ events' ++ after) := by
  intro hfree
  obtain ⟨hfree', hmakes⟩ := h hfree.inside
  refine ⟨?_, hmakes.within before after⟩
  rw [patternFree_append, patternFree_append] at hfree ⊢
  exact ⟨⟨hfree.1.1, hfree'⟩, hfree.2⟩

theorem of_expression (h : Phrase .expression events) (h' : Phrase .expression events')
    (hrefers : PatternFree events → PatternFree events' ∧
      ∀ view, ∀ reference ∈ View.reading.references view events',
        reference.name ∈ named ∨ reference ∈ View.reading.references view events) :
    Recasts gone named events events' := by
  intro hfree
  obtain ⟨hfree', hsub⟩ := hrefers hfree
  exact ⟨hfree', .of_expression h hfree h' hfree' hsub⟩

/-- An expression that mentions what is named, after an expression that stays. -/
theorem add (h : Phrase .expression events) (h' : Phrase .expression events')
    (hfree' : PatternFree events') (hnamed : ∀ role name id, .use role name id ∈ events' → name ∈ named) :
    Recasts gone named events (events ++ events') := by
  refine .of_expression h (h.append h') fun hfree => ⟨patternFree_append.2 ⟨hfree, hfree'⟩, ?_⟩
  intro view reference hmem
  rw [h.references_append hfree] at hmem
  rcases List.mem_append.1 hmem with hmem | hmem
  · exact .inr hmem
  · obtain ⟨role, huse⟩ := exists_use_of_reference hmem
    exact .inl (hnamed role _ _ huse)

/-- An expression that goes. -/
theorem drop (h : Phrase .expression events) : Recasts gone named events [] :=
  .of_expression h .nil fun _ => ⟨patternFree_nil, fun _ _ hmem => nomatch hmem⟩

end Recasts

/-! ### Declarations -/

theorem MakesWay.of_bind {gone : List NodeId} {named : List String} {binder : Binder} {name : String}
    {id : NodeId} (hgone : id ∈ gone) : MakesWay gone named [.bind binder name id] [] := by
  intro view view' hcovers
  refine ⟨⟨hcovers.names.set_left name ?_, hcovers.held⟩, fun _ hreference => nomatch hreference⟩
  rwa [Binder.decl_resolution]

/-- A name that means something anew. -/
theorem MakesWay.bind {gone : List NodeId} {named : List String} (binder : Binder) (name : String)
    (id : NodeId) : MakesWay gone named [] [.bind binder name id] := fun _ _ hcovers =>
  ⟨⟨hcovers.names.set_right name _, hcovers.held⟩, fun _ hreference => nomatch hreference⟩

/-- Parameters without some of them. -/
theorem MakesWay.filter_params {gone : List NodeId} {named : List String} (params : List Param) :
    MakesWay gone named (params.map fun param => .bind .methodParam param.name param.id)
      ((params.filter fun param => !gone.contains param.id).map fun param =>
        .bind .methodParam param.name param.id) := by
  induction params with
  | nil => exact .refl _
  | cons param rest ih =>
    by_cases hid : param.id ∈ gone
    · rw [List.filter_cons_of_neg (by simpa using hid)]
      exact (MakesWay.of_bind hid).append ih
    · rw [List.filter_cons_of_pos (by simpa using hid)]
      exact (MakesWay.single _).append ih

/-- A variable that goes, with its initial value. -/
theorem MakesWay.of_declaration {gone : List NodeId} {named : List String} {name : String}
    {id : NodeId} (hgone : id ∈ gone) {init : List Event} (hinit : Phrase .expression init)
    (hfree : PatternFree init) :
    MakesWay gone named ([Event.open, .bind .variable name id] ++ init) [] := by
  have hopen : MakesWay gone named [.open] [] := fun view view' hcovers =>
    ⟨hcovers, fun _ hreference => nomatch hreference⟩
  have hdropped : MakesWay gone named init [] :=
    .of_expression hinit hfree .nil patternFree_nil fun _ _ hreference => nomatch hreference
  exact (hopen.append (.of_bind hgone)).append hdropped

/-- A variable that comes, with an initial value. -/
theorem MakesWay.declare {gone : List NodeId} {named : List String} {name : String} {id : NodeId}
    {init : List Event} (hinit : Phrase .expression init) (hfree : PatternFree init)
    (hnamed : ∀ view, ∀ reference ∈ View.reading.references view init, reference.name ∈ named) :
    MakesWay gone named [] ([Event.open, .bind .variable name id] ++ init) := by
  have hopen : MakesWay gone named [] [.open] := fun view view' hcovers =>
    ⟨hcovers, fun _ hreference => nomatch hreference⟩
  exact (hopen.append (.bind .variable name id)).append (.of_expression .nil patternFree_nil hinit hfree fun view reference hmem =>
    .inl (hnamed view reference hmem))

/-! ### Names that mean something -/

/-- Whether what is bound in scopes comes from events. -/
def BoundBy (events : List Event) (scopes : Array ScopeData) : Prop :=
  ∀ (scope : Nat) (data : ScopeData) (name : String) (resolution : Resolution),
    scopes[scope]? = some data → data.find? name = some resolution →
      ∃ binder id, .bind binder name id ∈ events ∧ binder.resolution id = resolution

namespace BoundBy

variable {events : List Event}

theorem move {reader : ScopeReader} (h : BoundBy events reader.scopes) {event : Event}
    (hmem : event ∈ events) : BoundBy events (ScopeReader.reading.move reader event).scopes := by
  obtain ⟨scopes, current, held, uses⟩ := reader
  cases event with
  | use role name id => exact h
  | effect => exact h
  | hold => exact h
  | release => cases held <;> exact h
  | swap => cases held <;> exact h
  | «open» =>
    intro scope data name resolution hdata hfind
    change (scopes.push _)[scope]? = some data at hdata
    rw [Array.getElem?_push] at hdata
    split at hdata
    · cases hdata
      cases hfind
    · exact h scope data name resolution hdata hfind
  | bind binder other id =>
    intro scope data name resolution hdata hfind
    change (scopes.modify _ _)[scope]? = some data at hdata
    rw [Array.getElem?_modify] at hdata
    split at hdata
    · obtain ⟨old, hold, rfl⟩ := Option.map_eq_some_iff.1 hdata
      rw [ScopeData.find?_insert] at hfind
      split at hfind
      next heq =>
        cases hfind
        exact ⟨binder, id, heq ▸ hmem, rfl⟩
      next => exact h scope old name resolution hold hfind
    · exact h scope data name resolution hdata hfind

theorem lookup {scopes : Array ScopeData} (h : BoundBy events scopes) {name : String}
    {resolution : Resolution} {steps scope : Nat}
    (hlookup : Scope.lookup scopes name steps scope = some resolution) :
    ∃ binder id, .bind binder name id ∈ events ∧ binder.resolution id = resolution := by
  induction steps generalizing scope with
  | zero => cases hlookup
  | succ steps ih =>
    cases hdata : scopes[scope]? with
    | none =>
      rw [lookup_of_none hdata] at hlookup
      cases hlookup
    | some data =>
      rw [lookup_succ hdata] at hlookup
      cases hfind : data.find? name with
      | some found =>
        rw [hfind, Option.some_or] at hlookup
        cases hlookup
        exact h scope data name resolution hdata hfind
      | none =>
        rw [hfind, Option.none_or] at hlookup
        obtain ⟨parent, -, hparent⟩ := Option.bind_eq_some_iff.1 hlookup
        exact ih hparent

theorem places {all rest : List Event} {reader : ScopeReader} (hsub : rest ⊆ all)
    (h : BoundBy all reader.scopes) :
    ∀ place ∈ ScopeReader.reading.places reader rest, BoundBy all place.state.scopes := by
  induction rest generalizing reader with
  | nil => exact List.forall_mem_nil _
  | cons event rest ih =>
    rw [List.cons_subset] at hsub
    cases event with
    | use role name id => exact List.forall_mem_cons.2 ⟨h, ih hsub.2 h⟩
    | effect => exact ih hsub.2 h
    | _ => exact ih hsub.2 (h.move hsub.1)

theorem start (events : List Event) : BoundBy events ScopeReader.start.scopes := by
  intro scope data name resolution hdata hfind
  cases scope with
  | zero =>
    cases hdata
    cases hfind
  | succ scope => cases hdata

end BoundBy

/-- What a name means where a name occurs is declared by the method under this name. -/
theorem exists_bind_of_meaning {method : Method} {place : Place ScopeReader}
    (hplace : place ∈ ScopeReader.reading.places .start (BodyScopes.eventsOf method))
    {name : String} {found : Resolution}
    (hfound : ScopeReader.reading.meaning place.state name = some found) :
    ∃ binder, .bind binder name found.decl ∈ BodyScopes.eventsOf method := by
  obtain ⟨binder, id, hbind, rfl⟩ :=
    (BoundBy.places (List.Subset.refl _) (.start _) place hplace).lookup hfound
  exact ⟨binder, by rwa [Binder.decl_resolution]⟩

theorem exists_bind_of_resolution {method : Method} {reference : Reference} {found : Resolution}
    (hmem : reference ∈ BodyScopes.referencesOf method) (hfound : reference.resolution = some found) :
    ∃ binder, .bind binder reference.name found.decl ∈ BodyScopes.eventsOf method := by
  obtain ⟨place, hplace, rfl⟩ := List.mem_map.1 hmem
  exact exists_bind_of_meaning hplace hfound

/-- Whether a name means something in the current scope and in each scope remembered. -/
def Bound (name : String) (view : View) : Prop :=
  (∃ resolution, view.names name = some resolution) ∧
    ∀ names ∈ view.held, ∃ resolution, names name = some resolution

namespace Bound

variable {name : String} {view : View}

/-- A name that means something wherever a reader can return to keeps doing so. -/
theorem move (h : Bound name view) (event : Event) : Bound name (View.reading.move view event) := by
  obtain ⟨names, held⟩ := view
  obtain ⟨hnames, hheld⟩ := h
  cases event with
  | use role other id => exact ⟨hnames, hheld⟩
  | effect => exact ⟨hnames, hheld⟩
  | «open» => exact ⟨hnames, hheld⟩
  | bind binder other id =>
    refine ⟨?_, hheld⟩
    by_cases heq : name = other
    · exact ⟨_, if_pos heq⟩
    · obtain ⟨resolution, hresolution⟩ := hnames
      exact ⟨resolution, (if_neg heq).trans hresolution⟩
  | hold => exact ⟨hnames, List.forall_mem_cons.2 ⟨hnames, hheld⟩⟩
  | release =>
    cases held with
    | nil => exact ⟨hnames, hheld⟩
    | cons first rest => exact List.forall_mem_cons.1 hheld
  | swap =>
    cases held with
    | nil => exact ⟨hnames, hheld⟩
    | cons first rest =>
      obtain ⟨hfirst, hrest⟩ := List.forall_mem_cons.1 hheld
      exact ⟨hfirst, List.forall_mem_cons.2 ⟨hnames, hrest⟩⟩

theorem references (h : Bound name view) (events : List Event) :
    ∀ reference ∈ View.reading.references view events, reference.name = name →
      reference.resolution ≠ none := by
  induction events generalizing view with
  | nil => exact fun _ hreference => nomatch hreference
  | cons event rest ih =>
    intro reference hreference hname
    cases event with
    | use role other id =>
      rw [Reading.references_use] at hreference
      rcases List.mem_cons.1 hreference with rfl | hreference
      · obtain ⟨resolution, hresolution⟩ := h.1
        have hmeaning : view.names other = some resolution := by rwa [show other = name from hname]
        exact fun hnone => nomatch hmeaning.symm.trans hnone
      · exact ih h reference hreference hname
    | effect => exact ih h reference hreference hname
    | _ => exact ih (h.move _) reference hreference hname

end Bound

/-! ### Methods -/

/-- Whether a method binds no pattern variable in its body. -/
def NoPatterns (method : Method) : Prop := PatternFree (Block.eventsOption method.body)

theorem NoPatterns.referencesOf_eq {method : Method} (h : NoPatterns method) :
    BodyScopes.referencesOf method =
      View.reading.references .start (BodyScopes.eventsOf method) :=
  Scope.referencesOf_eq ((Block.phraseOption method.body).disciplined h)

/-- What the names of an edited method that refer to nothing were before the edit. -/
theorem MakesWay.dangled {gone : List NodeId} {named : List String} {method method' : Method}
    (h : MakesWay gone named (BodyScopes.eventsOf method) (BodyScopes.eventsOf method'))
    (hfree : NoPatterns method) (hfree' : NoPatterns method') {reference : Reference}
    (hmem : reference ∈ BodyScopes.referencesOf method') (hnone : reference.resolution = none) :
    reference.name ∈ named ∨ Dangled gone (BodyScopes.referencesOf method) reference := by
  rw [hfree'.referencesOf_eq] at hmem
  rw [hfree.referencesOf_eq]
  exact (h .start .start (.refl _)).2 reference hmem hnone

/-- What the names of parameters mean at the start of a body. -/
theorem after_params (params : List Param) (names : Names) :
    ∃ names', View.reading.after ⟨names, []⟩
        (params.map fun param => .bind .methodParam param.name param.id) = ⟨names', []⟩ ∧
      View.reading.references ⟨names, []⟩
        (params.map fun param => .bind .methodParam param.name param.id) = [] ∧
      (∀ name, (∃ resolution, names name = some resolution) ∨ name ∈ params.map (·.name) →
        ∃ resolution, names' name = some resolution) := by
  induction params generalizing names with
  | nil => exact ⟨names, rfl, rfl, fun name hname => hname.resolve_right List.not_mem_nil⟩
  | cons param rest ih =>
    obtain ⟨names', hafter, hreferences, hbound⟩ := ih (names.set param.name (.param param.id))
    refine ⟨names', hafter, hreferences, fun name hname => hbound name ?_⟩
    by_cases heq : name = param.name
    · exact .inl ⟨.param param.id, if_pos heq⟩
    · rw [List.map_cons, List.mem_cons, or_iff_right heq] at hname
      exact hname.imp_left fun ⟨resolution, hresolution⟩ =>
        ⟨resolution, (if_neg heq).trans hresolution⟩

/-- The name of a parameter means something everywhere. -/
theorem resolution_ne_none_of_param {method : Method} (hfree : NoPatterns method)
    {reference : Reference} (hname : reference.name ∈ method.params.map (·.name))
    (hmem : reference ∈ BodyScopes.referencesOf method) : reference.resolution ≠ none := by
  rw [hfree.referencesOf_eq, BodyScopes.eventsOf, Reading.references_append] at hmem
  obtain ⟨names, hafter, hreferences, hbound⟩ := after_params method.params fun _ => none
  rw [View.start, hafter, hreferences, List.nil_append] at hmem
  have hparam : Bound reference.name ⟨names, []⟩ :=
    ⟨hbound reference.name (.inr hname), List.forall_mem_nil _⟩
  exact hparam.references _ reference hmem rfl

/-- The name of a variable declared first means something everywhere. -/
theorem resolution_ne_none_of_declared {method : Method} (hfree : NoPatterns method) {body : Block}
    (hbody : method.body = some body) {events : List Event} (hevents : Phrase .statements events)
    {reference : Reference} {id : NodeId}
    (hinner : body.innerEvents = [Event.open, .bind .variable reference.name id] ++ events)
    (hmem : reference ∈ BodyScopes.referencesOf method) : reference.resolution ≠ none := by
  have hall : Block.eventsOption method.body =
      [Event.hold, .open, .open, .bind .variable reference.name id] ++ events ++
        [Event.release] := by
    obtain ⟨stmts, endComments, closing⟩ := body
    rw [hbody, Block.eventsOption, Block.events, enclosed, show Stmt.eventsList stmts = _ from hinner]
    simp
  have hfreeEvents : PatternFree events := by
    rw [NoPatterns, hall] at hfree
    exact hfree.inside
  rw [hfree.referencesOf_eq, BodyScopes.eventsOf, Reading.references_append, hall] at hmem
  obtain ⟨names, hafter, hreferences, -⟩ := after_params method.params fun _ => none
  rw [View.start, hafter, hreferences, List.nil_append] at hmem
  obtain ⟨names', -, hbelow⟩ := hevents.framed hfreeEvents
    (names.set reference.name (.variable id)) [] (by simp)
  -- Nothing after the declaration sees the scope of the parameters before the body ends.
  have hinside : reference ∈
      View.reading.references ⟨names.set reference.name (.variable id), []⟩ events := by
    have hframed := (hbelow [names]).2
    rw [List.nil_append] at hframed
    rw [← hframed]
    simpa [Reading.references_append, Reading.references, Reading.places, Reading.move,
      View.reading, View.take, Binder.resolution] using hmem
  have hdeclared : Bound reference.name ⟨names.set reference.name (.variable id), []⟩ :=
    ⟨⟨.variable id, if_pos rfl⟩, List.forall_mem_nil _⟩
  exact hdeclared.references _ reference hinside rfl

end AdviceMigration.Scope
