import AdviceMigration.Proofs.Advice.Heads
import AdviceMigration.Proofs.Advice.Renaming
import AdviceMigration.Proofs.Advice.Rewriting
import AdviceMigration.Proofs.Advice.Usages

/-!
# Names in an edited method

Each step of a migration keeps the names of a method intact: a name that refers to nothing after the step did so before, unless the step put it in. The names that a step puts in are those of parameters and of the variable declared first, which mean something everywhere in a body.
-/

namespace AdviceMigration.Advice

open AdviceMigration.Source AdviceMigration.Scope

/-! ### Methods -/

/-- Whether a method has no pattern variables, and no name that refers to nothing but the given ones and those that another method has too. -/
structure Intact (named : List String) (method method' : Method) : Prop where
  free : NoPatterns method'
  names : ∀ reference ∈ BodyScopes.referencesOf method', reference.resolution = none →
    reference.name ∈ named ∨ reference ∈ BodyScopes.referencesOf method

/-- Whether a name is that of a parameter or of a variable declared first in the body. -/
def Introduces (method : Method) (name : String) : Prop :=
  name ∈ method.params.map (·.name) ∨
    ∃ body id type init, method.body = some body ∧
      body.stmts.head? = some (.ofKind (.localVar (.single id type name init)))

theorem eventsOf_of_body {method : Method} {body : Block} (h : method.body = some body) :
    BodyScopes.eventsOf method =
      (paramEvents method.params ++ [Event.hold, .open]) ++ body.innerEvents ++
        [Event.release] := by
  rw [BodyScopes.eventsOf, h, Block.eventsOption, Block.events_eq, enclosed, paramEvents]
  simp

theorem noPatterns_iff {method : Method} {body : Block} (h : method.body = some body) :
    NoPatterns method ↔ PatternFree body.innerEvents := by
  rw [NoPatterns, h, Block.eventsOption, Block.events_eq, enclosed, patternFree_append,
    patternFree_append]
  constructor
  · exact fun hfree => hfree.1.2
  · exact fun hfree => ⟨⟨by simp [PatternFree], hfree⟩, by simp [PatternFree]⟩

/-- A name that is introduced means something everywhere. -/
theorem Introduces.resolution_ne_none {method : Method} {reference : Reference}
    (h : Introduces method reference.name) (hfree : NoPatterns method)
    (hmem : reference ∈ BodyScopes.referencesOf method) : reference.resolution ≠ none := by
  rcases h with hparam | ⟨⟨stmts, endComments, closing⟩, id, type, init, hbody, hfirst⟩
  · exact resolution_ne_none_of_param hfree hparam hmem
  · obtain ⟨rest, rfl⟩ : ∃ rest, stmts = _ :: rest := List.head?_eq_some_iff.1 hfirst
    refine @resolution_ne_none_of_declared _ hfree _ hbody _
      (init.phrase.statements.append (Stmt.phraseList rest)) _ id ?_ hmem
    simp [Block.innerEvents, Stmt.eventsList, Stmt.ofKind, Stmt.events, StmtKind.events,
      LocalVar.single, LocalVar.events, Declarator.eventsList, Expr.eventsOption]

namespace Intact

variable {named : List String} {method method' method'' : Method}

theorem refl (hfree : NoPatterns method) : Intact named method method :=
  ⟨hfree, fun _ hmem _ => .inr hmem⟩

theorem trans (h : Intact named method method') (h' : Intact named method' method'') :
    Intact named method method'' := by
  refine ⟨h'.free, fun reference hmem hnone => ?_⟩
  rcases h'.names reference hmem hnone with hnamed | hmem'
  · exact .inl hnamed
  · exact h.names reference hmem' hnone

/-- Names that are introduced refer to something. -/
theorem of_introduces (h : Intact named method method')
    (hnamed : ∀ name ∈ named, Introduces method' name) : Intact [] method method' := by
  refine ⟨h.free, fun reference hmem hnone => .inr ?_⟩
  rcases h.names reference hmem hnone with hname | hmem'
  · exact absurd hnone ((hnamed _ hname).resolution_ne_none h.free hmem)
  · exact hmem'

theorem of_eventsOf (hfree : NoPatterns method) (hbody : method'.body = method.body)
    (hparams : paramEvents method'.params = paramEvents method.params) : Intact named method method' := by
  have hevents : BodyScopes.eventsOf method' = BodyScopes.eventsOf method := by
    rw [BodyScopes.eventsOf, BodyScopes.eventsOf, hbody]
    exact congrArg (· ++ _) hparams
  refine ⟨by rwa [NoPatterns, hbody], fun reference hmem _ => .inr ?_⟩
  rwa [BodyScopes.referencesOf, ← hevents]

/-- Events that make way for others without taking a declaration away. -/
theorem of_makesWay (hfree : NoPatterns method) (hfree' : NoPatterns method')
    (h : MakesWay [] named (BodyScopes.eventsOf method) (BodyScopes.eventsOf method')) :
    Intact named method method' := by
  refine ⟨hfree', fun reference hmem hnone => ?_⟩
  rcases h.dangled hfree hfree' hmem hnone with hnamed | ⟨resolution, hmem', hgone⟩
  · exact .inl hnamed
  · cases resolution with
    | none =>
      obtain ⟨id, name, resolution⟩ := reference
      cases hnone
      exact .inr hmem'
    | some found => exact nomatch hgone found rfl

theorem of_rewrites {body body' : Block} (hfree : NoPatterns method)
    (hbody : method.body = some body) (hbody' : method'.body = some body')
    (hparams : paramEvents method'.params = paramEvents method.params) (h : Rewrites named body body') :
    Intact named method method' := by
  obtain ⟨hfree', hmakes⟩ := h.recasts ((noPatterns_iff hbody).1 hfree)
  refine of_makesWay hfree ((noPatterns_iff hbody').2 hfree') ?_
  rw [eventsOf_of_body hbody, eventsOf_of_body hbody', hparams]
  exact hmakes.within _ _

end Intact

theorem Introduces.of_rewrites {named : List String} {method method' : Method} {body body' : Block}
    {name : String} (h : Introduces method name) (hbody : method.body = some body)
    (hbody' : method'.body = some body') (hparams : method'.params = method.params)
    (hrewrites : Rewrites named body body') : Introduces method' name := by
  rcases h with hparam | ⟨body, id, type, init, hsome, hfirst⟩
  · exact .inl (hparams ▸ hparam)
  · rw [hbody] at hsome
    cases hsome
    exact .inr ⟨body', id, type, init, hbody', hrewrites.keeps _ _ hfirst rfl⟩

/-! ### Finishing -/

theorem rewrites_packReturns {method method' : Method} {values : List ValueToReturn}
    {next next' : NodeId} (hvalues : values ≠ [])
    (h : (packReturns method values).run next = ((method', .ok ()), next')) :
    ∃ body body', method.body = some body ∧ method'.body = some body' ∧
      Rewrites (values.map (·.name)) body body' := by
  obtain ⟨template, htemplate, hnames⟩ := isTemplate_returnTemplate hvalues next
  rw [packReturns, Fresh.run_bind, htemplate] at h
  dsimp only at h
  split at h
  next => cases h
  next body hbody =>
    rw [Fresh.run_bind] at h
    split at h
    next packed hpacked =>
      cases h
      exact ⟨body, packed, hbody, rfl, (rewrites_closeBody body).trans
        (rewrites_packReturnsAt hnames _ (Prod.ext hpacked rfl))⟩
    next => cases h

theorem rewrites_foldReturns {method : Method} {body : Block} (hbody : method.body = some body)
    (names : List String) : ∃ body', (foldReturns method names).1.body = some body' ∧
      Rewrites [] body body' :=
  ⟨_, by rw [foldReturns, hbody], rewrites_foldAll names body.returnPaths.reverse body⟩

/-- Returns of values that parameters and the first variable hold. -/
theorem intact_finishMethod {method method' : Method} {marker : Nat} {values : List ValueToReturn}
    {session session' : Session} (hfree : NoPatterns method)
    (hvalues : ∀ value ∈ values, Introduces method value.name)
    (h : (finishMethod method marker values).run session = .ok (method', session')) :
    Intact [] method method' := by
  rcases run_finishMethod h with ⟨-, rfl, -⟩ | ⟨hne, packed, next, hpack, rfl, -⟩
  · exact .refl hfree
  · have hannotate : Intact (values.map (·.name)) method (annotate method values marker) :=
      .of_eventsOf hfree rfl rfl
    obtain ⟨body, body', hbody, hbody', hrewrites⟩ := rewrites_packReturns hne hpack
    have hhead := SameHead.packReturns hpack
    have hpacked : Intact (values.map (·.name)) method packed :=
      hannotate.trans (.of_rewrites hannotate.free hbody hbody'
        (by rw [hhead.params]) hrewrites)
    have hintroduced : ∀ name ∈ values.map (·.name), Introduces packed name := by
      intro name hname
      obtain ⟨value, hvalue, rfl⟩ := List.mem_map.1 hname
      exact @Introduces.of_rewrites _ (annotate method values marker) _ _ _ _
        (hvalues value hvalue) hbody hbody' hhead.params hrewrites
    obtain ⟨body'', hbody'', hfolded⟩ := rewrites_foldReturns hbody' (values.map (·.name))
    have hhead' := SameHead.foldReturns packed (values.map (·.name))
    exact (hpacked.of_introduces hintroduced).trans (.of_rewrites hpacked.free hbody' hbody''
      (by rw [hhead'.params]) hfolded)

/-! ### Pruning -/

/-- A name that refers to nothing after a declaration is gone that nothing referred to. -/
theorem Intact.of_unused {decl : NodeId} {method method' : Method} (hfree : NoPatterns method)
    (hfree' : NoPatterns method') (hunused : (usagesOf method decl).isUnused)
    (h : MakesWay [decl] [] (BodyScopes.eventsOf method) (BodyScopes.eventsOf method')) :
    Intact [] method method' := by
  refine ⟨hfree', fun reference hmem hresolution => .inr ?_⟩
  obtain ⟨resolution, hmem', hgone⟩ :=
    (h.dangled hfree hfree' hmem hresolution).resolve_left List.not_mem_nil
  cases resolution with
  | none =>
    obtain ⟨id, name, resolution⟩ := reference
    cases hresolution
    exact hmem'
  | some found =>
    obtain ⟨occurrence, hoccurrence, heq⟩ := BodyScopes.exists_use_iff.1 hmem'
    have hfound : occurrence.resolution = some found := congrArg Reference.resolution heq
    have hrefers := not_refersTo_of_isUnused hunused hoccurrence
    rw [BodyScopes.refersTo, hfound] at hrefers
    exact absurd (List.mem_singleton.1 (hgone found rfl)) (by simpa using hrefers)

theorem makesWay_eraseP {decl : NodeId} (params : List Param) :
    MakesWay [decl] [] (params.map fun param => .bind .methodParam param.name param.id)
      ((params.eraseP (·.id == decl)).map fun param => .bind .methodParam param.name param.id) := by
  induction params with
  | nil => exact .refl _
  | cons param rest ih =>
    by_cases hid : param.id = decl
    · rw [List.eraseP_cons_of_pos (by simpa using hid)]
      exact (MakesWay.of_bind (List.mem_singleton.2 hid)).append (.refl _)
    · rw [List.eraseP_cons_of_neg (by simpa using hid)]
      exact (MakesWay.single _).append ih

/-- Declared variables without one of them. -/
theorem recasts_filter_declarators (decl : NodeId) (declarators : List Declarator) :
    Recasts [decl] [] (Declarator.eventsList declarators)
      (Declarator.eventsList (declarators.filter fun d => d.id != decl)) := by
  induction declarators with
  | nil => exact .refl _
  | cons declarator rest ih =>
    intro hfree
    obtain ⟨id, name, dims, init⟩ := declarator
    rw [Declarator.eventsList, patternFree_append, patternFree_append] at hfree
    obtain ⟨hfreeRest, hmakes⟩ := ih hfree.2
    by_cases hid : id = decl
    · rw [List.filter_cons_of_neg (by simpa using hid)]
      refine ⟨hfreeRest, ?_⟩
      exact (MakesWay.of_declaration (List.mem_singleton.2 hid) (Expr.phraseOption init)
        hfree.1.2).append hmakes
    · rw [List.filter_cons_of_pos (by simpa using hid), Declarator.eventsList, Declarator.eventsList]
      exact ⟨patternFree_append.2 ⟨patternFree_append.2 hfree.1, hfreeRest⟩,
        (MakesWay.refl _).append hmakes⟩

/-- A block without one of its statements. -/
theorem innerEvents_removeStmt? {front back : List Stmt} {stmt : Stmt} {endComments : List Comment}
    {closing : Option Trivia} {block' : Block}
    (h : removeStmt? ⟨front ++ stmt :: back, endComments, closing⟩ front.length = some block') :
    block'.innerEvents = Stmt.eventsList front ++ [] ++ Stmt.eventsList back := by
  rw [List.append_nil, ← Stmt.eventsList_append]
  cases back with
  | nil =>
    simp [removeStmt?, List.eraseIdx_append] at h
    rw [← h, Block.innerEvents, List.append_nil]
  | cons next rest =>
    have hevents : (inheritLeading stmt next).events = next.events := Stmt.events_congr rfl
    simp [removeStmt?, List.eraseIdx_append] at h
    rw [← h, Block.innerEvents, Stmt.eventsList_append, Stmt.eventsList_append, Stmt.eventsList,
      Stmt.eventsList, hevents]

/-- A statement that declares one variable only has nothing left without it. -/
theorem filter_declarators_of_declaredCount {stmt : Stmt} {decl : NodeId} {declared : LocalVar}
    (hkind : stmt.kind = .localVar declared)
    (hdeclares : declared.declarators.any (fun d => d.id == decl) = true)
    (hcount : ¬ 1 < declaredCount stmt) :
    declared.declarators.filter (fun d => d.id != decl) = [] := by
  rw [declaredCount, hkind] at hcount
  match hdeclarators : declared.declarators with
  | [] => rfl
  | [declarator] => simpa [hdeclarators] using hdeclares
  | _ :: _ :: _ => simp [hdeclarators] at hcount

theorem recasts_removeLocal? {body body' : Block} {decl : NodeId}
    (h : removeLocal? body decl = some body') :
    Recasts [decl] [] body.innerEvents body'.innerEvents := by
  rw [removeLocal?] at h
  split at h
  next => cases h
  next path stmt hfind =>
    have hstmt := Block.stmtAt?_eq_some_iff.2
      ((Block.mem_scoped body path stmt).1 (List.mem_of_find?_eq_some hfind))
    have hdeclares := List.find?_some hfind
    dsimp only [declares] at hdeclares
    split at hdeclares
    next declared hkind =>
      have hevents : stmt.events = Declarator.eventsList declared.declarators := by
        rw [Stmt.events_of_kind hkind]
        cases declared
        rfl
      have hrecasts := recasts_filter_declarators decl declared.declarators
      rw [← hevents] at hrecasts
      split at h
      next =>
        obtain ⟨old, before, after, hold, hbefore, hafter⟩ := Block.events_updateStmt? h
        rw [hstmt] at hold
        cases hold
        have hnew : (withoutDeclarator decl stmt).events =
            Declarator.eventsList (declared.declarators.filter fun d => d.id != decl) := by
          rw [withoutDeclarator, hkind]
          rfl
        rw [hbefore, hafter, hnew]
        exact hrecasts.within _ _
      next hcount =>
        split at h
        next => cases h
        next blockPath index hindex =>
          obtain rfl := StmtPath.blockIndex?_eq_some hindex
          obtain ⟨front, back, endComments, closing, rfl, hblock⟩ := Block.blockAt?_of_stmtAt? hstmt
          obtain ⟨block, block', before, after, hold, hnew, hbefore, hafter⟩ :=
            Block.events_updateBlock? h
          rw [hblock] at hold
          cases hold
          rw [filter_declarators_of_declaredCount hkind hdeclares hcount] at hrecasts
          rw [hbefore, hafter, innerEvents_removeStmt? hnew, Block.innerEvents,
            Stmt.eventsList_append, Stmt.eventsList, ← List.append_assoc (Stmt.eventsList front)]
          exact (hrecasts.within _ _).within _ _
    next => cases hdeclares

theorem intact_prune {method : Method} (hfree : NoPatterns method) (decl : NodeId) :
    Intact [] method (prune method decl) := by
  rw [prune, pruneIfUnused?]
  split
  next hunused =>
    rw [removeDeclaration?]
    split
    · refine .of_unused hfree (by exact hfree) hunused ?_
      exact (makesWay_eraseP method.params).append (.refl _)
    · split
      next => exact .refl hfree
      next body hbody =>
        cases hremoved : removeLocal? body decl with
        | none => exact .refl hfree
        | some body' =>
          obtain ⟨hfree', hmakes⟩ := recasts_removeLocal? hremoved ((noPatterns_iff hbody).1 hfree)
          refine .of_unused hfree ((noPatterns_iff rfl).2 hfree') hunused ?_
          rw [eventsOf_of_body hbody, eventsOf_of_body rfl]
          exact hmakes.within _ _
  next => exact .refl hfree

theorem intact_foldl_prune (decls : List NodeId) {method : Method} (hfree : NoPatterns method) :
    Intact [] method (decls.foldl prune method) := by
  induction decls generalizing method with
  | nil => exact .refl hfree
  | cons decl rest ih => exact (intact_prune hfree decl).trans (ih (intact_prune hfree decl).free)

/-! ### Handing over -/

theorem patternFree_respell {spelling : Spelling} {events : List Event} (h : PatternFree events) :
    PatternFree (events.map (Event.respell spelling)) := by
  intro name id hmem
  obtain ⟨event, hevent, heq⟩ := List.mem_map.1 hmem
  cases event with
  | bind binder other decl =>
    cases heq
    exact h name id hevent
  | use role other decl =>
    rw [Event.respell] at heq
    split at heq <;> cases heq
  | _ => cases heq

theorem noPatterns_respell {method : Method} (h : NoPatterns method) (spelling : Spelling) :
    NoPatterns (method.respell spelling) := by
  cases hbody : method.body with
  | none =>
    have hbody' : (method.respell spelling).body = none := by rw [Method.respell, hbody]; rfl
    rw [NoPatterns, hbody']
    exact patternFree_nil
  | some body =>
    rw [noPatterns_iff (Method.body_respell hbody spelling), Block.innerEvents_respell]
    exact patternFree_respell ((noPatterns_iff hbody).1 h)

theorem body_eraseParams (method : Method) (params : List NodeId) :
    (AdviceLocals.eraseParams method params).body = method.body := by
  induction params generalizing method with
  | nil => rfl
  | cons param rest ih => exact ih (method.eraseParam param)

/-- Names that are read from the carrier refer to what they did, and to none of the parameters it replaces. -/
theorem ReadsFrom.reference {locals : AdviceLocals} {var : String} {params : List NodeId}
    {next : NodeId} {method : Method} {spelling : Spelling}
    (h : ReadsFrom locals var params next method spelling) {reference : Reference}
    (hmem : reference ∈ BodyScopes.referencesOf (method.respell spelling)) :
    reference.name = var ∨ (reference ∈ BodyScopes.referencesOf method ∧
      ∀ found, reference.resolution = some found → found.decl ∉ params) := by
  obtain ⟨place', hplace', rfl⟩ := List.mem_map.1 hmem
  have hplaces := placesOf_respell spelling method
  rw [placesOf] at hplaces
  rw [hplaces] at hplace'
  obtain ⟨place, hplace, rfl⟩ := List.mem_map.1 hplace'
  by_cases hmeans : ∃ param ∈ params, Means place.state place.name param
  · obtain ⟨param, hparam, hmeans⟩ := hmeans
    exact .inl (h.named place hplace param hparam hmeans)
  · have hnone : ∀ param ∈ params, ¬ Means place.state place.name param :=
      fun param hparam hmeans' => hmeans ⟨param, hparam, hmeans'⟩
    have hkept : place.respell spelling = place := by
      rw [Place.respell, h.kept place hplace hnone]
    rw [hkept]
    exact .inr ⟨List.mem_map_of_mem hplace, fun found hfound hgone =>
      hnone found.decl hgone ⟨found, hfound, rfl⟩⟩

/-- Parameters that are read from the carrier are not missed. -/
theorem intact_eraseParams {locals : AdviceLocals} {var : String} {params : List NodeId}
    {next : NodeId} {method : Method} {spelling : Spelling} (hfree : NoPatterns method)
    (hnodup : (method.params.map (·.id)).Nodup)
    (h : ReadsFrom locals var params next method spelling) :
    Intact [var] method (AdviceLocals.eraseParams (method.respell spelling) params) := by
  have hfree₁ := noPatterns_respell hfree spelling
  have hbody := body_eraseParams (method.respell spelling) params
  have hfree₂ : NoPatterns (AdviceLocals.eraseParams (method.respell spelling) params) := by
    rwa [NoPatterns, hbody]
  have hmakes : MakesWay params [] (BodyScopes.eventsOf (method.respell spelling))
      (BodyScopes.eventsOf (AdviceLocals.eraseParams (method.respell spelling) params)) := by
    rw [BodyScopes.eventsOf, BodyScopes.eventsOf, hbody,
      @params_eraseParams (method.respell spelling) hnodup]
    exact (MakesWay.filter_params _).append (.refl _)
  refine ⟨hfree₂, fun reference hmem hnone => ?_⟩
  obtain ⟨resolution, hmem', hgone⟩ :=
    (hmakes.dangled hfree₁ hfree₂ hmem hnone).resolve_left List.not_mem_nil
  rcases h.reference hmem' with hname | ⟨hold, hother⟩
  · exact .inl (List.mem_singleton.2 hname)
  · cases resolution with
    | none =>
      obtain ⟨id, name, resolution⟩ := reference
      cases hnone
      exact .inr hold
    | some found => exact absurd (hgone found rfl) (hother found rfl)

/-- A block with the declaration of a variable in front. -/
def declaring (decl : LocalVar) (body : Block) : Block :=
  { body with stmts := .ofKind (.localVar decl) :: body.stmts }

theorem body_declareFirst {method : Method} {body : Block} (h : method.body = some body)
    (decl : LocalVar) :
    (AdviceLocals.declareFirst method decl).body = some (declaring decl body) := by
  rw [AdviceLocals.declareFirst, h]
  rfl

theorem innerEvents_declaring (id : NodeId) (type : TypeRef) (name : String) (init : Expr)
    (body : Block) : (declaring (.single id type name init) body).innerEvents =
      ([Event.open, .bind .variable name id] ++ init.events) ++ body.innerEvents := by
  obtain ⟨stmts, endComments, closing⟩ := body
  simp [declaring, Block.innerEvents, Stmt.eventsList, Stmt.ofKind, Stmt.events, StmtKind.events,
    LocalVar.single, LocalVar.events, Declarator.eventsList, Expr.eventsOption]

/-- A variable declared first in a body. -/
theorem intact_declareFirst {named : List String} {method : Method} (hfree : NoPatterns method)
    {body : Block} (hbody : method.body = some body) (id : NodeId) (type : TypeRef) (name : String)
    {init : Expr} (hinit : PatternFree init.events)
    (hnamed : ∀ role other use, .use role other use ∈ init.events → other ∈ named) :
    Intact named method (AdviceLocals.declareFirst method (.single id type name init)) ∧
      Introduces (AdviceLocals.declareFirst method (.single id type name init)) name := by
  have hbody' := body_declareFirst hbody (.single id type name init)
  have hinner := innerEvents_declaring id type name init body
  refine ⟨?_, .inr ⟨_, id, type, init, hbody', rfl⟩⟩
  have hdeclared : PatternFree ([Event.open, .bind .variable name id] ++ init.events) :=
    patternFree_append.2 ⟨by simp [PatternFree], hinit⟩
  refine .of_makesWay hfree ?_ ?_
  · rw [noPatterns_iff hbody', hinner]
    exact patternFree_append.2 ⟨hdeclared, (noPatterns_iff hbody).1 hfree⟩
  · rw [eventsOf_of_body hbody, eventsOf_of_body hbody', hinner]
    refine MakesWay.within (@MakesWay.append _ _ _ _ [] _ ?_ (.refl _)) _ _
    refine .declare init.phrase hinit fun view reference hmem => ?_
    obtain ⟨role, huse⟩ := exists_use_of_reference hmem
    exact hnamed role _ _ huse

/-- A parameter that is added. -/
theorem intact_addParam {named : List String} {method : Method} (hfree : NoPatterns method)
    (param : Param) : Intact named method { method with params := method.params ++ [param] } := by
  refine .of_makesWay hfree hfree ?_
  have hevents : BodyScopes.eventsOf { method with params := method.params ++ [param] } =
      paramEvents method.params ++ [Event.bind .methodParam param.name param.id] ++
        Block.eventsOption method.body := by
    simp [BodyScopes.eventsOf, paramEvents]
  have hevents' : BodyScopes.eventsOf method =
      paramEvents method.params ++ [] ++ Block.eventsOption method.body := by
    simp [BodyScopes.eventsOf, paramEvents]
  rw [hevents, hevents']
  exact (MakesWay.bind _ _ _).within _ _

theorem rewrites_storeReturns {locals : AdviceLocals} {var : String} {body body' : Block}
    {next next' : NodeId} (h : (locals.storeReturns var body).run next = ((body', true), next')) :
    Rewrites [var] body body' := by
  rw [AdviceLocals.storeReturns] at h
  split at h
  next =>
    cases h
    exact .refl body
  next enter henter =>
    rw [Fresh.run_bind, run_access] at h
    exact rewrites_storeReturnsAt _ h

/-- The initial value of a carrier mentions nothing. -/
theorem events_initialValue (locals : AdviceLocals) (type : TypeRef) :
    ∀ event ∈ (locals.initialValue type).events, event = .effect := by
  unfold AdviceLocals.initialValue
  split
  · simp [Expr.events, Expr.eventsOption, Expr.eventsList, Member.eventsBody]
  · split <;> exact List.forall_mem_nil _

/-- What handing values over does to the enter method: references are read from the carrier, the parameters go, returned values are stored, and the carrier is declared first. -/
theorem run_transformEnter {locals : AdviceLocals} {method moved : Method} {next next' : NodeId}
    {carrier : Option ValueToReturn} (hids : method.Identified next)
    (h : (locals.transformEnter method).run next = ((moved, .ok carrier), next')) :
    (locals.enterCarrier? = none ∧ moved = method ∧ carrier = none ∧ next' = next) ∨
      ∃ base type spelling middle body stored last, locals.enterCarrier? = some (base, type) ∧
        method.body = some body ∧
        let replaced := locals.enter.map (·.2.param)
        let var := (TakenNames.ofMethod method replaced).freshName base
        next ≤ middle ∧ (method.respell spelling).Identified middle ∧
        ReadsFrom locals var replaced next method spelling ∧
        (locals.storeReturns var (body.respell spelling)).run middle = ((stored, true), last) ∧
        moved = AdviceLocals.declareFirst
          { AdviceLocals.eraseParams (method.respell spelling) replaced with body := some stored }
          (.single last type var (locals.initialValue type)) ∧
        carrier = some ⟨last, var, type, none⟩ ∧ next' = last + 1 := by
  unfold AdviceLocals.transformEnter at h
  split at h
  next hnone =>
    cases h
    exact .inl ⟨hnone, rfl, rfl, rfl⟩
  next base type hcarrier =>
    split at h
    · cases h
    · obtain ⟨spelling, middle, hrun, hle, hids', hreads⟩ := @run_readFromCarrier locals
        ((TakenNames.ofMethod method (locals.enter.map (·.2.param))).freshName base) method
        (locals.enter.map (·.2.param)) next hids
      simp only [Fresh.run_bind, hrun] at h
      split at h
      next => cases h
      next respelled hrespelled =>
        rw [body_eraseParams] at hrespelled
        obtain ⟨body, hbody, rfl⟩ := Option.map_eq_some_iff.1 hrespelled
        rw [Fresh.run_bind] at h
        split at h
        next => cases h
        next stored hstored =>
          cases h
          exact .inr ⟨base, type, spelling, middle, body, stored, _, hcarrier, hbody, hle, hids',
            hreads, Prod.ext hstored rfl, rfl, rfl, rfl⟩

/-- Handing values over leaves no name behind in the enter method, and the carrier is declared first. -/
theorem intact_transformEnter {locals : AdviceLocals} {method moved : Method} {next next' : NodeId}
    {carrier : Option ValueToReturn} (hfree : NoPatterns method)
    (hnodup : (method.params.map (·.id)).Nodup) (hids : method.Identified next)
    (h : (locals.transformEnter method).run next = ((moved, .ok carrier), next')) :
    Intact [] method moved ∧ ∀ value, carrier = some value → Introduces moved value.name := by
  rcases run_transformEnter hids h with ⟨-, rfl, rfl, -⟩ | ⟨base, type, spelling, middle, body,
    stored, last, -, hbody, -, -, hreads, hstored, rfl, rfl, -⟩
  · exact ⟨.refl hfree, nofun⟩
  · have herased := intact_eraseParams hfree hnodup hreads
    have hrespelled : (AdviceLocals.eraseParams (method.respell spelling)
        (locals.enter.map (·.2.param))).body = some (body.respell spelling) := by
      rw [body_eraseParams, Method.body_respell hbody]
    let stored' : Method := { AdviceLocals.eraseParams (method.respell spelling)
      (locals.enter.map (·.2.param)) with body := some stored }
    have hstored' : Intact [_] method stored' :=
      herased.trans (.of_rewrites herased.free hrespelled rfl rfl (rewrites_storeReturns hstored))
    have hinit := events_initialValue locals type
    obtain ⟨hdeclared, hintroduced⟩ := @intact_declareFirst _ stored' hstored'.free stored rfl last type
      ((TakenNames.ofMethod method (locals.enter.map (·.2.param))).freshName base)
      (locals.initialValue type) (fun name id hmem => nomatch hinit _ hmem)
      fun role name id hmem => nomatch hinit _ hmem
    refine ⟨(hstored'.trans hdeclared).of_introduces fun name hname => ?_, ?_⟩
    · rw [List.mem_singleton.1 hname]
      exact hintroduced
    · rintro value ⟨⟩
      exact hintroduced

theorem Introduces.addParam {method : Method} {name : String} (h : Introduces method name)
    (param : Param) : Introduces { method with params := method.params ++ [param] } name := by
  rcases h with hparam | hfirst
  · exact .inl (by rw [List.map_append]; exact List.mem_append_left _ hparam)
  · exact .inr hfirst

/-- The carrier in a parameter of its own. -/
theorem intact_receive {var : String} {method : Method} (hfree : NoPatterns method) (annot : Annot)
    (type : TypeRef) (next : NodeId) :
    Intact [var] method ((AdviceLocals.receive method annot type var).run next).1.1 ∧
      Introduces ((AdviceLocals.receive method annot type var).run next).1.1 var := by
  refine ⟨intact_addParam hfree (.single next annot type var), .inl ?_⟩
  change var ∈ (method.params ++ [Param.single next annot type var]).map (·.name)
  simp [Param.single]

/-- The carrier in a variable declared first, which takes it from a parameter for several values. -/
theorem intact_receivePacked {var packed : String} {method : Method} (hfree : NoPatterns method)
    {body : Block} (hbody : method.body = some body) (annot : Annot) (type : TypeRef)
    (next : NodeId) :
    Intact [var, packed] method
        ((AdviceLocals.receivePacked method annot type var packed).run next).1.1 ∧
      ∀ name ∈ [var, packed],
        Introduces ((AdviceLocals.receivePacked method annot type var packed).run next).1.1 name := by
  let unpack := Expr.cast type (.index (.name (next + 1) packed) (.ofInt 0))
  have hunpack : unpack.events = [.use .read packed (next + 1)] := rfl
  let declared := AdviceLocals.declareFirst method (.single (next + 2) type var unpack)
  let param := Param.single next annot (.array objectType) packed
  have hrun : ((AdviceLocals.receivePacked method annot type var packed).run next).1.1 =
    { declared with params := declared.params ++ [param] } := rfl
  obtain ⟨hdeclared, hvar⟩ := @intact_declareFirst [var, packed] method hfree body hbody (next + 2)
    type var unpack (by simp [hunpack, PatternFree])
    (by simp +contextual [hunpack])
  rw [hrun]
  refine ⟨hdeclared.trans (intact_addParam hdeclared.free param), fun name hname => ?_⟩
  rcases List.mem_cons.1 hname with rfl | hname
  · exact hvar.addParam param
  · rw [List.mem_singleton.1 hname]
    exact .inl (by simp [param, Param.single])

theorem Intact.mono {named named' : List String} {method method' : Method}
    (h : Intact named method method') (hsub : named ⊆ named') : Intact named' method method' :=
  ⟨h.free, fun reference hmem hnone => (h.names reference hmem hnone).imp_left (hsub ·)⟩

/-- What handing values over does to the exit method: references are read from the carrier, the parameters go, and a parameter for the carrier is added, or one for several values from which it is taken. -/
theorem run_transformExit {locals : AdviceLocals} {method moved : Method} {enterPacked : Bool}
    {annot : Annot} {next next' : NodeId} {change : Option AdviceLocals.ExitChange}
    (hids : method.Identified next)
    (h : (locals.transformExit method enterPacked annot).run next = ((moved, .ok change), next')) :
    ((locals.carrierType? = none ∨ locals.exitBase? = none) ∧ moved = method ∧ change = none) ∨
      ∃ base type spelling middle body received, locals.carrierType? = some type ∧
        locals.exitBase? = some base ∧ method.body = some body ∧
        let taken := TakenNames.ofMethod method locals.exitParams
        let var := taken.freshName base
        let erased := AdviceLocals.eraseParams (method.respell spelling) locals.exitParams
        next ≤ middle ∧ (method.respell spelling).Identified middle ∧
        ReadsFrom locals var locals.exitParams next method spelling ∧
        (if enterPacked then AdviceLocals.receivePacked erased annot type var
            (TakenNames.freshName (var :: taken) packedParam)
          else AdviceLocals.receive erased annot type var).run middle = ((moved, received), next') ∧
        change = some received := by
  unfold AdviceLocals.transformExit at h
  split at h
  next hnone =>
    cases h
    exact .inl ⟨.inl hnone, rfl, rfl⟩
  next type htype =>
    split at h
    next => cases h
    next hsome =>
      split at h
      next hnone =>
        cases h
        exact .inl ⟨.inr hnone, rfl, rfl⟩
      next base hbase =>
        have hne : method.body ≠ none := fun hnone => hsome (by rw [hnone]; rfl)
        obtain ⟨body, hbody⟩ := Option.ne_none_iff_exists'.1 hne
        obtain ⟨spelling, middle, hrun, hle, hids', hreads⟩ := @run_readFromCarrier locals
          ((TakenNames.ofMethod method locals.exitParams).freshName base) method locals.exitParams
          next hids
        simp only [Fresh.run_bind, TakenNames.fresh, hrun] at h
        cases enterPacked <;>
        · cases h
          exact .inr ⟨base, type, spelling, middle, body, _, htype, hbase, hbody, hle, hids',
            hreads, rfl, rfl⟩

/-- Receiving values leaves no name behind in the exit method. -/
theorem intact_transformExit {locals : AdviceLocals} {method moved : Method} {enterPacked : Bool}
    {annot : Annot} {next next' : NodeId} {change : Option AdviceLocals.ExitChange}
    (hfree : NoPatterns method) (hnodup : (method.params.map (·.id)).Nodup)
    (hids : method.Identified next)
    (h : (locals.transformExit method enterPacked annot).run next = ((moved, .ok change), next')) :
    Intact [] method moved := by
  rcases run_transformExit hids h with ⟨-, rfl, -⟩ | ⟨base, type, spelling, middle, body, received,
    -, -, hbody, -, -, hreads, hreceived, -⟩
  · exact .refl hfree
  · have herased := intact_eraseParams hfree hnodup hreads
    cases enterPacked with
    | false =>
      cases hreceived
      obtain ⟨hreceived, hvar⟩ := intact_receive herased.free annot type middle
      refine (herased.trans hreceived).of_introduces fun name hname => ?_
      rw [List.mem_singleton.1 hname]
      exact hvar
    | true =>
      cases hreceived
      have hrespelled : (AdviceLocals.eraseParams (method.respell spelling)
          locals.exitParams).body = some (body.respell spelling) := by
        rw [body_eraseParams, Method.body_respell hbody]
      obtain ⟨hreceived, hnames⟩ := intact_receivePacked herased.free hrespelled annot type middle
      exact ((herased.mono (by simp)).trans hreceived).of_introduces hnames

end AdviceMigration.Advice
