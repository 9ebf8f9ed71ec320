import AdviceMigration.Proofs.Advice.Binding
import AdviceMigration.Proofs.Advice.Session

/-!
# Heads of migrated methods

What a migration does to the annotations and parameters of an advice method. Parameters that take part in the hand-over are removed, one that receives the carrier may be added, the others lose the element that says they are writable; and the method gets annotations that say where returned values go. The body does not matter here.
-/

namespace AdviceMigration.Advice

open AdviceMigration.Source AdviceMigration.Scope

/-! ### Edits of the body -/

/-- Whether two methods have the same identity, annotations and parameters. -/
structure SameHead (method method' : Method) : Prop where
  id : method'.id = method.id
  annotations : method'.annotations = method.annotations
  params : method'.params = method.params

namespace SameHead

theorem refl (method : Method) : SameHead method method := ⟨rfl, rfl, rfl⟩

theorem trans {method method' method'' : Method} (h : SameHead method method')
    (h' : SameHead method' method'') : SameHead method method'' :=
  ⟨h'.id.trans h.id, h'.annotations.trans h.annotations, h'.params.trans h.params⟩

theorem replaceReferences (method : Method) (decl : NodeId) (replacement : Expr) (next : NodeId) :
    SameHead method ((replaceReferences method decl replacement).run next).1.1 :=
  ⟨rfl, rfl, rfl⟩

theorem readFromCarrier (locals : AdviceLocals) (var : String) (method : Method)
    (params : List NodeId) (next : NodeId) :
    SameHead method ((locals.readFromCarrier var method params).run next).1 := by
  induction params generalizing method next with
  | nil => exact .refl method
  | cons param rest ih => exact (SameHead.replaceReferences _ _ _ _).trans (ih _ _)

theorem packReturns {method method' : Method} {values : List ValueToReturn} {next next' : NodeId}
    (h : (packReturns method values).run next = ((method', .ok ()), next')) :
    SameHead method method' := by
  rw [Advice.packReturns, Fresh.run_bind] at h
  split at h
  · cases h
    exact .refl method
  · split at h
    · cases h
    · rw [Fresh.run_bind] at h
      split at h
      · cases h
        exact ⟨rfl, rfl, rfl⟩
      · cases h

theorem foldReturns (method : Method) (returned : List String) :
    SameHead method (foldReturns method returned).1 := by
  rw [Advice.foldReturns]
  split
  · exact .refl method
  · exact ⟨rfl, rfl, rfl⟩

end SameHead

/-! ### Parameters -/

theorem eraseP_id_eq_filter {params : List Param} (hnodup : (params.map (·.id)).Nodup)
    (id : NodeId) : params.eraseP (·.id == id) = params.filter (·.id != id) := by
  induction params with
  | nil => rfl
  | cons param rest ih =>
    rw [List.map_cons, List.nodup_cons] at hnodup
    by_cases hid : param.id = id
    · have hother : ∀ other ∈ rest, (other.id != id) = true := by
        intro other hmem
        rw [bne_iff_ne, ← hid]
        exact fun heq => hnodup.1 (heq ▸ List.mem_map_of_mem hmem)
      simp [hid, List.filter_eq_self.2 hother]
    · simp [hid, ih hnodup.2]

theorem params_eraseParams {method : Method} (hnodup : (method.params.map (·.id)).Nodup)
    (ids : List NodeId) :
    (AdviceLocals.eraseParams method ids).params =
      method.params.filter fun param => !ids.contains param.id := by
  induction ids generalizing method with
  | nil => simp [AdviceLocals.eraseParams]
  | cons id rest ih =>
    have hnodup' : ((method.eraseParam id).params.map (·.id)).Nodup :=
      hnodup.sublist (List.eraseP_sublist.map _)
    rw [AdviceLocals.eraseParams, List.foldl_cons, ← AdviceLocals.eraseParams, ih hnodup',
      Method.eraseParam, eraseP_id_eq_filter hnodup, List.filter_filter]
    congr 1
    funext param
    by_cases hid : param.id = id <;> simp [hid]

theorem SameHead.eraseParams {method method' : Method} (h : SameHead method method')
    (ids : List NodeId) : SameHead (AdviceLocals.eraseParams method ids)
      (AdviceLocals.eraseParams method' ids) := by
  induction ids generalizing method method' with
  | nil => exact h
  | cons id rest ih =>
    refine ih ⟨h.id, h.annotations, ?_⟩
    rw [Method.eraseParam, Method.eraseParam, h.params]

/-- Erasing parameters changes nothing else. -/
theorem eraseParams_rest (method : Method) (ids : List NodeId) :
    (AdviceLocals.eraseParams method ids).id = method.id ∧
      (AdviceLocals.eraseParams method ids).annotations = method.annotations := by
  induction ids generalizing method with
  | nil => exact ⟨rfl, rfl⟩
  | cons id rest ih => exact ih (method.eraseParam id)

theorem eq_nil_of_firstOf? {locals : AdviceLocals} {shared : List (String × HandedParam)}
    (h : locals.firstOf? shared = none) : shared = [] ∧ locals.exitEnter = none := by
  unfold AdviceLocals.firstOf? at h
  split at h
  · cases h
  · exact ⟨rfl, Option.map_eq_none_iff.1 h⟩

theorem eq_nil_of_isNonempty {locals : AdviceLocals} (h : locals.isNonempty = false) :
    locals.enter = [] ∧ locals.exitEnter = none := by
  simpa [AdviceLocals.isNonempty, AdviceLocals.hasShared] using h

theorem enter_eq_nil_of_enterCarrier? {locals : AdviceLocals} (h : locals.enterCarrier? = none) :
    locals.enter = [] := by
  unfold AdviceLocals.enterCarrier? at h
  split at h
  · cases h
  · exact (eq_nil_of_firstOf? (Option.map_eq_none_iff.1 h)).1

theorem exitParams_eq_nil_of_carrierType? {locals : AdviceLocals}
    (hlength : locals.enter.length = locals.exit.length) (h : locals.carrierType? = none) :
    locals.exitParams = [] := by
  unfold AdviceLocals.carrierType? at h
  split at h
  · cases h
  · obtain ⟨henter, hnone⟩ := eq_nil_of_firstOf? (Option.map_eq_none_iff.1 h)
    rw [henter] at hlength
    rw [AdviceLocals.exitParams, List.length_eq_zero_iff.1 hlength.symm, hnone]
    rfl

theorem exitParams_eq_nil_of_exitBase? {locals : AdviceLocals} (h : locals.exitBase? = none) :
    locals.exitParams = [] := by
  unfold AdviceLocals.exitBase? at h
  split at h
  · cases h
  · obtain ⟨hexit, hnone⟩ := eq_nil_of_firstOf? (Option.map_eq_none_iff.1 h)
    rw [AdviceLocals.exitParams, hexit, hnone]
    rfl

/-- The enter method loses the parameters of the values that it shares. -/
theorem sameHead_transformEnter {locals : AdviceLocals} {method method' : Method}
    {next next' : NodeId} {carrier : Option ValueToReturn}
    (h : (locals.transformEnter method).run next = ((method', .ok carrier), next')) :
    SameHead (AdviceLocals.eraseParams method (locals.enter.map (·.2.param))) method' := by
  unfold AdviceLocals.transformEnter at h
  split at h
  next hnone =>
    cases h
    rw [enter_eq_nil_of_enterCarrier? hnone]
    exact .refl method
  next =>
    split at h
    · cases h
    · simp only [Fresh.run_bind] at h
      split at h
      · cases h
      · rw [Fresh.run_bind] at h
        split at h
        · cases h
        · cases h
          exact ((SameHead.readFromCarrier _ _ _ _ _).eraseParams _).trans ⟨rfl, rfl, rfl⟩

/-- The exit method loses the parameters that the carrier replaces, and may get one for the carrier. -/
theorem head_transformExit {locals : AdviceLocals} {method method' : Method} {enterPacked : Bool}
    {annot : Annot} {next next' : NodeId} {change : Option AdviceLocals.ExitChange}
    (hlength : locals.enter.length = locals.exit.length)
    (h : (locals.transformExit method enterPacked annot).run next =
      ((method', .ok change), next')) :
    ∃ erased extra, SameHead (AdviceLocals.eraseParams method locals.exitParams) erased ∧
      SameHead { erased with params := erased.params ++ extra } method' ∧
      (extra = [] ∨ ∃ id type var, extra = [Param.single id annot type var]) := by
  unfold AdviceLocals.transformExit at h
  split at h
  next hnone =>
    cases h
    rw [exitParams_eq_nil_of_carrierType? hlength hnone]
    exact ⟨method, [], .refl method, ⟨rfl, rfl, (List.append_nil _).symm⟩, .inl rfl⟩
  next =>
    split at h
    · cases h
    · split at h
      next hnone =>
        cases h
        rw [exitParams_eq_nil_of_exitBase? hnone]
        exact ⟨method, [], .refl method, ⟨rfl, rfl, (List.append_nil _).symm⟩, .inl rfl⟩
      next =>
        simp only [Fresh.run_bind] at h
        cases enterPacked <;> cases h <;>
          exact ⟨_, _, (SameHead.readFromCarrier _ _ _ _ _).eraseParams _, ⟨rfl, rfl, rfl⟩,
            .inr ⟨_, _, _, rfl⟩⟩

/-- The method without a declaration that nothing uses keeps its other parameters. -/
theorem head_prune (method : Method) (decl : NodeId) :
    (prune method decl).id = method.id ∧ (prune method decl).annotations = method.annotations ∧
      (prune method decl).params.Sublist method.params := by
  have hremoved : ∀ method', removeDeclaration? method decl = some method' →
      method'.id = method.id ∧ method'.annotations = method.annotations ∧
        method'.params.Sublist method.params := by
    intro method' h
    rw [removeDeclaration?] at h
    split at h
    · cases h
      exact ⟨rfl, rfl, List.eraseP_sublist⟩
    · split at h
      · cases h
      · obtain ⟨body, -, rfl⟩ := Option.map_eq_some_iff.1 h
        exact ⟨rfl, rfl, .refl _⟩
  rw [prune, pruneIfUnused?]
  split
  · cases h : removeDeclaration? method decl with
    | none => exact ⟨rfl, rfl, .refl _⟩
    | some method' => exact hremoved method' h
  · exact ⟨rfl, rfl, .refl _⟩

theorem head_foldl_prune (decls : List NodeId) (method : Method) :
    (decls.foldl prune method).id = method.id ∧
      (decls.foldl prune method).annotations = method.annotations ∧
      (decls.foldl prune method).params.Sublist method.params := by
  induction decls generalizing method with
  | nil => exact ⟨rfl, rfl, .refl _⟩
  | cons decl rest ih =>
    obtain ⟨hid, hannotations, hparams⟩ := ih (prune method decl)
    obtain ⟨hid', hannotations', hparams'⟩ := head_prune method decl
    exact ⟨hid.trans hid', hannotations.trans hannotations', hparams.trans hparams'⟩

/-! ### Annotations -/

/-- Whether annotations are others with some that say where returned values go. -/
structure Reannotated (annots annots' : List Annot) : Prop where
  kept : ∀ annot ∈ annots, ∃ annot' ∈ annots', annot'.name = annot.name
  added : ∀ annot' ∈ annots', annot'.name ∈ Framework.emittedNames ∨
    ∃ annot ∈ annots, annot.name = annot'.name

namespace Reannotated

theorem refl (annots : List Annot) : Reannotated annots annots :=
  ⟨fun annot hannot => ⟨annot, hannot, rfl⟩, fun annot hannot => .inr ⟨annot, hannot, rfl⟩⟩

theorem trans {annots annots' annots'' : List Annot} (h : Reannotated annots annots')
    (h' : Reannotated annots' annots'') : Reannotated annots annots'' where
  kept := by
    intro annot hannot
    obtain ⟨annot', hannot', hname⟩ := h.kept annot hannot
    obtain ⟨annot'', hannot'', hname'⟩ := h'.kept annot' hannot'
    exact ⟨annot'', hannot'', hname'.trans hname⟩
  added := by
    intro annot'' hannot''
    rcases h'.added annot'' hannot'' with hemitted | ⟨annot', hannot', hname'⟩
    · exact .inl hemitted
    · rw [← hname']
      exact h.added annot' hannot'

end Reannotated

@[simp] theorem name_appendItem (item annot : Annot) :
    (appendItem item annot).name = annot.name := by
  unfold appendItem
  split <;> rfl

theorem reannotated_insert (state : Annotating) {annot : Annot}
    (hname : annot.name ∈ Framework.emittedNames) (hmarker : state.marker ≤ state.annots.length) :
    Reannotated state.annots (state.insert annot).annots where
  kept := by
    intro other hother
    exact ⟨other, (List.mem_insertIdx hmarker).2 (.inr hother), rfl⟩
  added := by
    intro other hother
    rcases (List.mem_insertIdx hmarker).1 hother with rfl | hother
    · exact .inl hname
    · exact .inr ⟨other, hother, rfl⟩

theorem reannotated_modify (annots : List Annot) (index : Nat) (item : Annot) :
    Reannotated annots (annots.modify index (appendItem item)) := by
  have hnames : (annots.modify index (appendItem item)).map (·.name) = annots.map (·.name) := by
    refine List.ext_getElem? fun position => ?_
    rw [List.getElem?_map, List.getElem?_map, List.getElem?_modify]
    cases annots[position]? with
    | none => rfl
    | some annot => by_cases hposition : index = position <;> simp [hposition]
  constructor
  · intro annot hannot
    have hmem : annot.name ∈ (annots.modify index (appendItem item)).map (·.name) :=
      hnames ▸ List.mem_map_of_mem hannot
    exact List.mem_map.1 hmem
  · intro annot hannot
    have hmem : annot.name ∈ annots.map (·.name) := hnames ▸ List.mem_map_of_mem hannot
    exact .inr (List.mem_map.1 hmem)

/-- Annotations for a target go in without changing those that are there, as long as they go in at a position that exists. -/
theorem reannotated_add (state : Annotating) (target : WriteTarget) (slot : Option Nat)
    (hmarker : state.marker ≤ state.annots.length) :
    Reannotated state.annots (state.add target slot).annots ∧
      (state.add target slot).marker ≤ (state.add target slot).annots.length := by
  have hinsert : ∀ annot, annot.name ∈ Framework.emittedNames →
      Reannotated state.annots (state.insert annot).annots ∧
        (state.insert annot).marker ≤ (state.insert annot).annots.length := by
    intro annot hname
    refine ⟨reannotated_insert state hname hmarker, ?_⟩
    rw [Annotating.insert, List.length_insertIdx_of_le_length hmarker]
    exact Nat.succ_le_succ hmarker
  have hitem : ∀ wrapper ∈ Framework.emittedNames, ∀ item,
      Reannotated state.annots (state.insertItem wrapper item).annots ∧
        (state.insertItem wrapper item).marker ≤ (state.insertItem wrapper item).annots.length := by
    intro wrapper hwrapper item
    rw [Annotating.insertItem]
    split
    · exact ⟨reannotated_modify _ _ _, by simpa using hmarker⟩
    · exact hinsert _ hwrapper
  cases target with
  | argument index => exact hitem _ (by decide) _
  | field name => exact hitem _ (by decide) _
  | returned =>
    refine hinsert _ ?_
    cases slot <;> exact (by decide : Framework.toReturnedName ∈ Framework.emittedNames)

theorem reannotated_addAll (packed : Bool) (values : List (ValueToReturn × Nat))
    (state : Annotating) (hmarker : state.marker ≤ state.annots.length) :
    Reannotated state.annots (state.addAll packed values).annots := by
  induction values generalizing state with
  | nil => exact .refl _
  | cons entry rest ih =>
    obtain ⟨value, slot⟩ := entry
    rw [Annotating.addAll]
    split
    · exact ih state hmarker
    · obtain ⟨hadd, hmarker'⟩ := reannotated_add state _ _ hmarker
      exact hadd.trans (ih _ hmarker')

theorem reannotated_annotate (method : Method) (values : List ValueToReturn) (marker : Nat) :
    Reannotated method.annotations (annotate method values marker).annotations :=
  reannotated_addAll (arePacked values) values.zipIdx
    ⟨method.annotations, min marker method.annotations.length⟩ (Nat.min_le_right _ _)

/-! ### Methods -/

/-- What becomes of the annotations and parameters of a method: the parameters `removed` are gone, what is left of the others loses the elements of the bindings `writes`, and the parameters `extra` may be new. -/
structure Rewritten (removed : List NodeId) (writes : List Binding) (extra : List Param)
    (method method' : Method) : Prop where
  id : method'.id = method.id
  annotations : Reannotated method.annotations method'.annotations
  params : method'.params.Sublist
    ((method.params.filter fun param => !removed.contains param.id).map (cleaned writes) ++ extra)

/-- Whether all annotations of a parameter are spelled like `Enter`. -/
def Receives (param : Param) : Prop :=
  ∀ annot ∈ param.annotations, "Enter".toList <:+ annot.name.toList

theorem receives_cleaned {annot : Annot} (h : "Enter".toList <:+ annot.name.toList)
    (writes : List Binding) (id : NodeId) (type : TypeRef) (var : String) :
    Receives (cleaned writes (Param.single id annot type var)) := by
  intro annot' hannot'
  obtain ⟨annot'', rest, hclean, hrest, heq⟩ := List.forall₂_cons_left_iff.1
    (cleaned_annotations writes (Param.single id annot type var))
  rw [heq, List.forall₂_nil_left_iff.1 hrest, List.mem_singleton] at hannot'
  rw [hannot', hclean.name]
  exact h

/-- Whether a migration can get from one session to another within a class: it adds framework imports only. -/
structure Advances (session session' : Session) : Prop where
  imports : ∀ path ∈ session'.imports, path ∈ session.imports ∨ path ∈ Framework.addedImports
  classes : session'.classes = session.classes

namespace Advances

theorem of_eq {session session' : Session} (himports : session'.imports = session.imports)
    (hclasses : session'.classes = session.classes) : Advances session session' :=
  ⟨fun _ hpath => .inl (himports ▸ hpath), hclasses⟩

theorem refl (session : Session) : Advances session session := .of_eq rfl rfl

theorem trans {session session' session'' : Session} (h : Advances session session')
    (h' : Advances session' session'') : Advances session session'' :=
  ⟨fun path hpath => (h'.imports path hpath).elim (h.imports path) .inr,
    h'.classes.trans h.classes⟩

/-- The supply of identities does not matter. -/
theorem of_draw {session session' : Session} {next : NodeId}
    (h : Advances { session with nextId := next } session') : Advances session session' :=
  ⟨h.imports, h.classes⟩

end Advances

theorem mem_foldl_add {paths : List String} {imports : RequiredImports} {path : String}
    (h : path ∈ paths.foldl RequiredImports.add imports) : path ∈ imports ∨ path ∈ paths := by
  induction paths generalizing imports with
  | nil => exact .inl h
  | cons first rest ih =>
    rcases ih h with hadd | hrest
    · rw [RequiredImports.add] at hadd
      split at hadd
      · exact .inl hadd
      · rcases List.mem_append.1 hadd with himports | hfirst
        · exact .inl himports
        · exact .inr (List.mem_singleton.1 hfirst ▸ List.mem_cons_self)
    · exact .inr (List.mem_cons_of_mem _ hrest)

theorem mem_addedImports_of_target {target : WriteTarget} {path : String}
    (h : path ∈ target.imports) : path ∈ Framework.addedImports := by
  have hargument : ∀ path ∈ [Framework.assignReturned, Framework.toArgument],
      path ∈ Framework.addedImports := by
    decide
  have hfield : ∀ path ∈ [Framework.assignReturned, Framework.toField],
      path ∈ Framework.addedImports := by
    decide
  cases target with
  | argument index => exact hargument path h
  | field name => exact hfield path h
  | returned => exact hfield path (List.mem_cons.2 (.inl (List.mem_singleton.1 h)))

theorem advances_requireImports (session : Session) (values : List ValueToReturn) :
    Advances session { session with imports := requireImports session.imports values } := by
  refine ⟨fun path hpath => ?_, rfl⟩
  rcases mem_foldl_add hpath with himports | htarget
  · exact .inl himports
  · obtain ⟨target, -, htarget⟩ := List.mem_flatMap.1 htarget
    exact .inr (mem_addedImports_of_target htarget)

/-- Finishing a method annotates it and changes its body. -/
theorem head_finishMethod {method method' : Method} {marker : Nat} {values : List ValueToReturn}
    {session session' : Session}
    (h : (finishMethod method marker values).run session = .ok (method', session')) :
    method'.id = method.id ∧ Reannotated method.annotations method'.annotations ∧
      method'.params = method.params ∧ Advances session session' := by
  rcases run_finishMethod h with ⟨-, rfl, rfl⟩ | ⟨-, packed, next, hpack, rfl, rfl⟩
  · exact ⟨rfl, .refl _, rfl, .refl _⟩
  · have hhead := (SameHead.packReturns hpack).trans (.foldReturns packed (values.map (·.name)))
    have hannotate := reannotated_annotate method values marker
    rw [← hhead.annotations] at hannotate
    exact ⟨hhead.id, hannotate, hhead.params,
      (advances_requireImports session values).trans (.of_eq rfl rfl)⟩

/-- Dropping elements changes parameters only. -/
theorem foldl_dropReadOnly_rest (writes : List Binding) (method : Method) :
    (writes.foldl dropReadOnly method).id = method.id ∧
      (writes.foldl dropReadOnly method).annotations = method.annotations := by
  induction writes generalizing method with
  | nil => exact ⟨rfl, rfl⟩
  | cons binding rest ih => exact ih (dropReadOnly method binding)

/-- The steps that the migrations of both methods share, from the hand-over on. -/
theorem rewritten_of_finished {removed decls : List NodeId} {writes : List Binding}
    {extra : List Param} {method moved finished : Method} {marker : Nat}
    {values : List ValueToReturn} {session session' : Session}
    (hnodup : (method.params.map (·.id)).Nodup) (hid : moved.id = method.id)
    (hannotations : moved.annotations = method.annotations)
    (hparams : moved.params = (AdviceLocals.eraseParams method removed).params ++ extra)
    (hfinish : (finishMethod (writes.foldl dropReadOnly moved) marker values).run session =
      .ok (finished, session')) :
    Rewritten removed writes (extra.map (cleaned writes)) method (decls.foldl prune finished) ∧
      Advances session session' := by
  obtain ⟨hid', hannotations', hparams', hadvances⟩ := head_finishMethod hfinish
  obtain ⟨hid'', hannotations'', hparams''⟩ := head_foldl_prune decls finished
  obtain ⟨hdropId, hdropAnnotations⟩ := foldl_dropReadOnly_rest writes moved
  refine ⟨⟨?_, ?_, ?_⟩, hadvances⟩
  · rw [hid'', hid', hdropId, hid]
  · rw [hannotations'', ← hannotations, ← hdropAnnotations]
    exact hannotations'
  · rw [hparams', params_foldl_dropReadOnly, hparams, params_eraseParams hnodup,
      List.map_append] at hparams''
    exact hparams''

/-- The enter method loses the parameters of the values that it shares. -/
theorem rewritten_migrateEnter {plan : Plan} {enter : AdviceMethod} {method method' : Method}
    {values : List ValueToReturn} {session session' : Session}
    (hnodup : (method.params.map (·.id)).Nodup)
    (h : (plan.migrateEnter enter method).run session = .ok ((method', values), session')) :
    Rewritten (plan.locals.enter.map (·.2.param)) plan.enterWrites [] method method' ∧
      Advances session session' := by
  obtain ⟨moved, carrier, next, finished, hmove, -, hfinish, rfl⟩ := run_migrateEnter h
  have hmoved : SameHead (AdviceLocals.eraseParams method (plan.locals.enter.map (·.2.param)))
      moved := by
    rcases hmove with ⟨-, hmove⟩ | ⟨hempty, rfl, -, -⟩
    · exact sameHead_transformEnter hmove
    · rw [(eq_nil_of_isNonempty hempty).1]
      exact .refl _
  obtain ⟨hid, hannotations⟩ := eraseParams_rest method (plan.locals.enter.map (·.2.param))
  obtain ⟨hrewritten, hadvances⟩ := rewritten_of_finished hnodup (hmoved.id.trans hid)
    (hmoved.annotations.trans hannotations) (hmoved.params.trans (List.append_nil _).symm) hfinish
  exact ⟨hrewritten, hadvances.of_draw⟩

/-- The annotation of the parameter for the carrier is spelled like `Enter`. -/
theorem exitAnnot_spec {plan : Plan} {exit : AdviceMethod} {annot : Annot}
    {session session' : Session}
    (hentered : ∀ enter, plan.locals.exitEnter = some enter →
      "Enter".toList <:+ enter.annot.name.toList)
    (hmarker : "OnMethodExit".toList <:+ exit.markerName.toList)
    (h : (plan.exitAnnot exit).run session = .ok (annot, session')) :
    "Enter".toList <:+ annot.name.toList ∧ Advances session session' := by
  rw [Plan.exitAnnot] at h
  split at h
  next enter henter =>
    obtain ⟨rfl, rfl⟩ := Migrating.run_pure.1 h
    exact ⟨hentered enter henter, .refl _⟩
  next =>
    rw [enterAnnot, if_pos (by simpa using hmarker)] at h
    extract_lets at h
    split at h
    · rw [Migrating.run_bind] at h
      obtain ⟨_, middle, hrequire, h⟩ := h
      obtain ⟨rfl, rfl⟩ := Migrating.run_pure.1 h
      refine ⟨List.suffix_refl _, ?_⟩
      rw [← Migrating.run_modify.1 hrequire]
      refine ⟨fun path hpath => ?_, rfl⟩
      rcases @mem_foldl_add [Framework.enterValue] _ _ hpath with himports | hadded
      · exact .inl himports
      · rw [List.mem_singleton.1 hadded]
        exact .inr (by decide)
    · obtain ⟨rfl, rfl⟩ := Migrating.run_pure.1 h
      refine ⟨?_, .refl _⟩
      rw [Annot.name, String.toList_append]
      exact List.suffix_append _ _

/-- The exit method loses the parameters that the carrier replaces, and may get one that receives the carrier. -/
theorem rewritten_migrateExit {plan : Plan} {exit : AdviceMethod} {method method' : Method}
    {enterPacked : Bool} {session session' : Session}
    (hnodup : (method.params.map (·.id)).Nodup)
    (hlength : plan.locals.enter.length = plan.locals.exit.length)
    (hentered : ∀ enter, plan.locals.exitEnter = some enter →
      "Enter".toList <:+ enter.annot.name.toList)
    (hmarker : "OnMethodExit".toList <:+ exit.markerName.toList)
    (h : (plan.migrateExit exit method enterPacked).run session = .ok (method', session')) :
    ∃ extra, Rewritten plan.locals.exitParams plan.exitWrites extra method method' ∧
      extra.length ≤ 1 ∧ (∀ param ∈ extra, Receives param) ∧
      (plan.locals.isNonempty = false → extra = []) ∧ Advances session session' := by
  obtain ⟨moved, change, middle, next, finished, hmove, hfinish, rfl⟩ := run_migrateExit h
  obtain ⟨hid, hannotations⟩ := eraseParams_rest method plan.locals.exitParams
  rcases hmove with ⟨hnonempty, annot, hannot, hmove⟩ | ⟨hempty, rfl, -, rfl, -⟩
  · obtain ⟨hspelled, hadvances⟩ := exitAnnot_spec hentered hmarker hannot
    obtain ⟨erased, extra, herased, hmoved, hextra⟩ := head_transformExit hlength hmove
    obtain ⟨hrewritten, hadvances'⟩ := rewritten_of_finished hnodup
      (hmoved.id.trans (herased.id.trans hid))
      (hmoved.annotations.trans (herased.annotations.trans hannotations))
      (hmoved.params.trans (congrArg (· ++ extra) herased.params)) hfinish
    refine ⟨_, hrewritten, ?_, ?_, ?_, hadvances.trans hadvances'.of_draw⟩
    · rcases hextra with rfl | ⟨id, type, var, rfl⟩ <;> simp
    · rcases hextra with rfl | ⟨id, type, var, rfl⟩
      · simp
      · simpa using receives_cleaned hspelled _ id type var
    · simp [hnonempty]
  · obtain ⟨henter, hnone⟩ := eq_nil_of_isNonempty hempty
    have hparams : plan.locals.exitParams = [] := by
      rw [henter] at hlength
      rw [AdviceLocals.exitParams, List.length_eq_zero_iff.1 hlength.symm, hnone]
      rfl
    rw [hparams]
    obtain ⟨hrewritten, hadvances⟩ := @rewritten_of_finished [] _ _ [] _ _ _ _ _ _ _ hnodup rfl rfl
      (List.append_nil _).symm hfinish
    exact ⟨[], hrewritten, by simp, by simp, fun _ => rfl, hadvances.of_draw⟩

end AdviceMigration.Advice
