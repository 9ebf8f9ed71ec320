import AdviceMigration.Proofs.Advice.Slots
import AdviceMigration.Proofs.Advice.Frames
import AdviceMigration.Proofs.Source.Annotations

/-!
# Emitted annotations

A plan says which annotations its migration puts on the advice methods: those that ask for the written values, and one for the parameter that receives what is handed over. All other annotations of a migrated class were there before, and what the emitted ones need is imported.
-/

namespace AdviceMigration.Advice

open AdviceMigration.Source AdviceMigration.Scope

/-! ### What a plan emits -/

namespace WriteTarget

/-- The names of the annotations that ask for a target, each with what it is to stand for. -/
def emits : WriteTarget → List (String × String)
  | argument _ => [(Framework.toArgumentsWrapper, Framework.assignReturned ++ ".ToArguments"),
    (Framework.toArgumentName, Framework.toArgument)]
  | field _ => [(Framework.toFieldsWrapper, Framework.assignReturned ++ ".ToFields"),
    (Framework.toFieldName, Framework.toField)]
  | returned => [(Framework.toReturnedName, Framework.assignReturned ++ ".ToReturned")]

/-- The names of the annotations in the value of an annotation for a target: those in the name of a field, as it was written. -/
def valueNames : WriteTarget → List String
  | field name => name.annotNames
  | _ => []

/-- The names that the annotations for a target are written with. -/
def names (target : WriteTarget) : List String := target.emits.map (·.1) ++ target.valueNames

end WriteTarget

/-- The targets of bindings. -/
def writeTargets (writes : List Binding) : List WriteTarget :=
  writes.filterMap fun binding => WriteTarget.ofRole? binding.role

/-- The name of the annotation for a new exit parameter, spelled like the exit marker. -/
def enterName (markerName : String) : String :=
  String.ofList (markerName.toList.take (markerName.length - "OnMethodExit".toList.length)) ++
    "Enter"

namespace Plan

/-- The annotation for the parameter that receives what is handed over, unless the exit method has one already. -/
def enterEmits (plan : Plan) : List (String × String) :=
  match plan.exit with
  | some exit =>
    if plan.locals.isNonempty && plan.locals.exitEnter.isNone then
      [(enterName exit.markerName, Framework.enterValue)]
    else []
  | none => []

/-- The names of the annotations that a migration emits for a class, each with what it is to stand for. -/
def emits (plan : Plan) : List (String × String) :=
  (writeTargets (plan.enterWrites ++ plan.exitWrites)).flatMap (·.emits) ++ plan.enterEmits

theorem emits_eq_nil_of_not_hasChanges {plan : Plan} (h : plan.hasChanges = false) :
    plan.emits = [] := by
  simp only [hasChanges, Bool.or_eq_false_iff, Bool.not_eq_false', List.isEmpty_iff] at h
  obtain ⟨⟨henter, hexit⟩, hshared⟩ := h
  rw [emits, henter, hexit, enterEmits]
  split
  · rw [AdviceLocals.isNonempty, hshared]
    cases plan.locals.exitEnter <;> rfl
  · rfl

end Plan

/-! ### Names -/

theorem append_subset_append {α : Type} {as as' bs bs' : List α} (h : as ⊆ as') (h' : bs ⊆ bs') :
    as ++ bs ⊆ as' ++ bs' :=
  List.append_subset.2 ⟨fun _ hmem => List.mem_append_left _ (h hmem),
    fun _ hmem => List.mem_append_right _ (h' hmem)⟩

theorem annotNames_slotted (name : String) (value : ElementValue) (slot : Option Nat) :
    (slotted name value slot).names = name :: value.annotNames := by
  cases slot with
  | none => rfl
  | some slot =>
    rw [slotted, Annot.names_pairs]
    simp [slotPair, ElementValue.annotNames]

theorem names_annot_subset (target : WriteTarget) (slot : Option Nat) :
    (target.annot slot).names ⊆ target.names := by
  cases target with
  | argument index =>
    rw [WriteTarget.annot, annotNames_slotted]
    simp [WriteTarget.names, WriteTarget.emits, ElementValue.annotNames]
  | field name =>
    rw [WriteTarget.annot, annotNames_slotted]
    simp [WriteTarget.names, WriteTarget.emits, WriteTarget.valueNames]
  | returned =>
    cases slot with
    | none => simp [WriteTarget.annot, WriteTarget.names, WriteTarget.emits]
    | some slot =>
      rw [WriteTarget.annot, Annot.names_pairs]
      simp [WriteTarget.names, WriteTarget.emits, slotPair, ElementValue.annotNames]

theorem wrapper_mem_names {target : WriteTarget} {wrapper : String}
    (h : target.wrapper? = some wrapper) : wrapper ∈ target.names := by
  cases target <;> cases h <;> exact List.mem_cons_self

theorem names_appendItem_subset (item annot : Annot) :
    (appendItem item annot).names ⊆ annot.names ++ item.names := by
  unfold appendItem
  split
  · simp [ElementValue.annotNames, ElementValue.listNames_eq]
  · simp [ElementValue.annotNames, ElementValue.listNames_eq]
  · simp [ElementValue.annotNames, ElementValue.listNames_eq]
  · simp [ElementValue.annotNames, ElementValue.listNames_eq, Annot.names_pairs]

theorem listNames_add_subset (state : Annotating) (target : WriteTarget) (slot : Option Nat) :
    Annot.listNames (state.add target slot).annots ⊆
      Annot.listNames state.annots ++ target.names := by
  have hitem := names_annot_subset target slot
  rw [Annotating.add]
  split
  next wrapper hwrapper =>
    rw [Annotating.insertItem]
    split
    · refine Annot.listNames_modify_subset (fun annot => ?_) _ _
      exact List.Subset.trans (names_appendItem_subset _ annot)
        (append_subset_append (List.Subset.refl _) hitem)
    · refine List.Subset.trans (Annot.listNames_insertIdx_subset _ _ _)
        (append_subset_append (List.Subset.refl _) ?_)
      rw [Annot.names_single, ElementValue.annotNames, ElementValue.listNames_eq,
        List.flatMap_singleton, ElementValue.annotNames]
      exact List.cons_subset.2 ⟨wrapper_mem_names hwrapper, hitem⟩
  next =>
    exact List.Subset.trans (Annot.listNames_insertIdx_subset _ _ _)
      (append_subset_append (List.Subset.refl _) hitem)

/-- The targets of values. -/
def valueTargets (values : List ValueToReturn) : List WriteTarget := values.filterMap (·.target)

theorem listNames_addAll_subset (packed : Bool) (values : List (ValueToReturn × Nat))
    (state : Annotating) : Annot.listNames (state.addAll packed values).annots ⊆
      Annot.listNames state.annots ++ (valueTargets (values.map (·.1))).flatMap (·.names) := by
  induction values generalizing state with
  | nil => exact List.subset_append_left _ _
  | cons entry rest ih =>
    obtain ⟨value, slot⟩ := entry
    rw [Annotating.addAll]
    split
    next hnone =>
      rw [List.map_cons, valueTargets, List.filterMap_cons_none hnone]
      exact ih state
    next target htarget =>
      rw [List.map_cons, valueTargets, List.filterMap_cons_some htarget, List.flatMap_cons,
        ← List.append_assoc]
      exact List.Subset.trans (ih _)
        (append_subset_append (listNames_add_subset _ _ _) (List.Subset.refl _))

theorem listNames_annotate_subset (method : Method) (values : List ValueToReturn) (marker : Nat) :
    Annot.listNames (annotate method values marker).annotations ⊆
      Annot.listNames method.annotations ++ (valueTargets values).flatMap (·.names) := by
  have hadd := listNames_addAll_subset (arePacked values) values.zipIdx
    ⟨method.annotations, min marker method.annotations.length⟩
  rwa [List.zipIdx_map_fst] at hadd

/-! ### Finished methods -/

theorem subset_foldl_add (paths : List String) (imports : RequiredImports) :
    imports ++ paths ⊆ paths.foldl RequiredImports.add imports := by
  induction paths generalizing imports with
  | nil =>
    rw [List.append_nil]
    exact List.Subset.refl _
  | cons path rest ih =>
    rw [List.foldl_cons]
    refine List.Subset.trans ?_ (ih (imports.add path))
    rw [RequiredImports.add]
    split
    next hmem =>
      have hpath : path ∈ imports := by simpa using hmem
      exact List.append_subset.2 ⟨List.subset_append_left _ _,
        List.cons_subset.2 ⟨List.mem_append_left _ hpath, List.subset_append_right _ _⟩⟩
    next => simp

/-- Whether a step requires no fewer imports than before, among them those for some targets. -/
structure Requires (targets : List WriteTarget) (session session' : Session) : Prop where
  earlier : session.imports ⊆ session'.imports
  targets : ∀ target ∈ targets, target.imports ⊆ session'.imports

namespace Requires

theorem refl (session : Session) : Requires [] session session := ⟨List.Subset.refl _, nofun⟩

theorem trans {targets targets' : List WriteTarget} {session middle session' : Session}
    (h : Requires targets session middle) (h' : Requires targets' middle session') :
    Requires (targets ++ targets') session session' where
  earlier := List.Subset.trans h.earlier h'.earlier
  targets := fun target htarget => (List.mem_append.1 htarget).elim
    (fun hmem => List.Subset.trans (h.targets target hmem) h'.earlier) (h'.targets target)

end Requires

/-- A finished method has the annotations that ask for its values besides those that it had. -/
theorem emits_finishMethod {method method' : Method} {marker : Nat} {values : List ValueToReturn}
    {session session' : Session}
    (h : (finishMethod method marker values).run session = .ok (method', session')) :
    Annot.listNames method'.annotations ⊆
        Annot.listNames method.annotations ++ (valueTargets values).flatMap (·.names) ∧
      Requires (valueTargets values) session session' := by
  rcases run_finishMethod h with ⟨rfl, rfl, rfl⟩ | ⟨-, packed, next, hpack, rfl, rfl⟩
  · exact ⟨List.subset_append_left _ _, .refl _⟩
  · have hhead := (SameHead.packReturns hpack).trans (.foldReturns packed (values.map (·.name)))
    have himports := subset_foldl_add ((valueTargets values).flatMap (·.imports)) session.imports
    rw [List.append_subset] at himports
    refine ⟨?_, himports.1, fun target htarget path hpath => ?_⟩
    · rw [hhead.annotations]
      exact listNames_annotate_subset method values marker
    · exact himports.2 (List.mem_flatMap.2 ⟨target, htarget, hpath⟩)

theorem listNames_cleaned_subset (writes : List Binding) (param : Param) :
    Annot.listNames (cleaned writes param).annotations ⊆ Annot.listNames param.annotations := by
  induction writes generalizing param with
  | nil => exact List.Subset.refl _
  | cons binding rest ih =>
    refine List.Subset.trans (ih (withoutReadOnly binding param)) ?_
    rw [withoutReadOnly]
    split
    · have hmodify := @Annot.listNames_modify_subset (fun annot => annot.without "readOnly") []
        (fun annot => by
          rw [List.append_nil]
          exact annot.names_without_subset "readOnly")
        param.annotations binding.annotIndex
      rwa [List.append_nil] at hmodify
    · exact List.Subset.refl _

/-- The steps that the migrations of both methods share, from the hand-over on. -/
theorem annotNames_of_finished {decls : List NodeId} {writes : List Binding} {extra : List Param}
    {method moved finished : Method} {marker : Nat} {values : List ValueToReturn}
    {session session' : Session} (hannotations : moved.annotations = method.annotations)
    (hparams : moved.params ⊆ method.params ++ extra)
    (hfinish : (finishMethod (writes.foldl dropReadOnly moved) marker values).run session =
      .ok (finished, session')) :
    (decls.foldl prune finished).annotNames ⊆ method.annotNames ++
        ((extra.flatMap fun param => Annot.listNames param.annotations) ++
          (valueTargets values).flatMap (·.names)) ∧
      Requires (valueTargets values) session session' := by
  obtain ⟨hnames, hrequires⟩ := emits_finishMethod hfinish
  obtain ⟨-, -, hparams', -⟩ := head_finishMethod hfinish
  obtain ⟨-, hannotations'', hparams''⟩ := head_foldl_prune decls finished
  obtain ⟨-, hdropAnnotations⟩ := foldl_dropReadOnly_rest writes moved
  refine ⟨fun name hname => ?_, hrequires⟩
  rcases List.mem_append.1 hname with hname | hname
  · rw [hannotations''] at hname
    have hname' := hnames hname
    rw [hdropAnnotations, hannotations] at hname'
    rcases List.mem_append.1 hname' with hold | hemitted
    · exact List.mem_append_left _ (List.mem_append_left _ hold)
    · exact List.mem_append_right _ (List.mem_append_right _ hemitted)
  · obtain ⟨param, hparam, hname⟩ := List.mem_flatMap.1 hname
    have hparam' := hparams''.subset hparam
    rw [hparams', params_foldl_dropReadOnly] at hparam'
    obtain ⟨before, hbefore, rfl⟩ := List.mem_map.1 hparam'
    have hname' := listNames_cleaned_subset writes before hname
    rcases List.mem_append.1 (hparams hbefore) with hold | hextra
    · exact List.mem_append_left _ (List.mem_append_right _
        (List.mem_flatMap.2 ⟨before, hold, hname'⟩))
    · exact List.mem_append_right _ (List.mem_append_left _
        (List.mem_flatMap.2 ⟨before, hextra, hname'⟩))

/-! ### Advice methods -/

theorem valueTargets_ofBindings (writes : List Binding) :
    valueTargets (writes.filterMap ValueToReturn.ofBinding?) = writeTargets writes := by
  rw [valueTargets, List.filterMap_filterMap, writeTargets]
  congr 1
  funext binding
  rw [ValueToReturn.ofBinding?, Option.bind_map]
  cases WriteTarget.ofRole? binding.role <;> rfl

/-- The carrier is not written back. -/
theorem target_transformEnter {locals : AdviceLocals} {method method' : Method}
    {next next' : NodeId} {carrier : Option ValueToReturn}
    (h : (locals.transformEnter method).run next = ((method', .ok carrier), next')) :
    valueTargets carrier.toList = [] := by
  unfold AdviceLocals.transformEnter at h
  split at h
  · cases h
    rfl
  · split at h
    · cases h
    · simp only [Fresh.run_bind] at h
      split at h
      · cases h
      · rw [Fresh.run_bind] at h
        split at h
        · cases h
        · cases h
          rfl

theorem eraseParams_subset {method : Method} (hnodup : (method.params.map (·.id)).Nodup)
    (ids : List NodeId) : (AdviceLocals.eraseParams method ids).params ⊆ method.params := by
  rw [params_eraseParams hnodup]
  exact List.filter_subset_self _

/-- The annotations of a migrated enter method are old ones and those that ask for what it writes. -/
theorem emits_migrateEnter {plan : Plan} {enter : AdviceMethod} {method method' : Method}
    {values : List ValueToReturn} {session session' : Session}
    (hnodup : (method.params.map (·.id)).Nodup)
    (h : (plan.migrateEnter enter method).run session = .ok ((method', values), session')) :
    method'.annotNames ⊆ method.annotNames ++ (writeTargets plan.enterWrites).flatMap (·.names) ∧
      Requires (writeTargets plan.enterWrites) session session' := by
  obtain ⟨moved, carrier, next, finished, hmove, rfl, hfinish, rfl⟩ := run_migrateEnter h
  have hmoved : moved.annotations = method.annotations ∧ moved.params ⊆ method.params ++ [] ∧
      valueTargets carrier.toList = [] := by
    rcases hmove with ⟨-, hmove⟩ | ⟨-, rfl, rfl, -⟩
    · have hhead := sameHead_transformEnter hmove
      refine ⟨hhead.annotations.trans (eraseParams_rest _ _).2, ?_, target_transformEnter hmove⟩
      rw [hhead.params, List.append_nil]
      exact eraseParams_subset hnodup _
    · exact ⟨rfl, List.subset_append_left _ _, rfl⟩
  have htargets : valueTargets
      (carrier.toList ++ plan.enterWrites.filterMap ValueToReturn.ofBinding?) =
        writeTargets plan.enterWrites := by
    rw [valueTargets, List.filterMap_append, ← valueTargets, ← valueTargets, hmoved.2.2,
      valueTargets_ofBindings, List.nil_append]
  obtain ⟨hnames, hrequires⟩ := annotNames_of_finished hmoved.1 hmoved.2.1 hfinish
  rw [htargets] at hnames hrequires
  exact ⟨hnames, hrequires.earlier, hrequires.targets⟩

/-- The annotation of the parameter for the carrier is the one there was, or one spelled like the exit marker. -/
theorem emits_exitAnnot {plan : Plan} {exit : AdviceMethod} {annot : Annot}
    {session session' : Session} (hmarker : "OnMethodExit".toList <:+ exit.markerName.toList)
    (h : (plan.exitAnnot exit).run session = .ok (annot, session')) :
    session.imports ⊆ session'.imports ∧
      ((∃ enter, plan.locals.exitEnter = some enter ∧ annot = enter.annot) ∨
        (plan.locals.exitEnter = none ∧ annot.names = [enterName exit.markerName] ∧
          (enterName exit.markerName = "Enter" → Framework.enterValue ∈ session'.imports))) := by
  rw [Plan.exitAnnot] at h
  split at h
  next enter henter =>
    obtain ⟨rfl, rfl⟩ := Migrating.run_pure.1 h
    exact ⟨List.Subset.refl _, .inl ⟨enter, henter, rfl⟩⟩
  next hnone =>
    rw [enterAnnot, if_pos (by simpa using hmarker)] at h
    extract_lets stem at h
    have hname : enterName exit.markerName = String.ofList stem ++ "Enter" := rfl
    rw [hname]
    split at h
    next hempty =>
      obtain ⟨_, middle, hrequire, h⟩ := Migrating.run_bind.1 h
      obtain ⟨rfl, rfl⟩ := Migrating.run_pure.1 h
      rw [← Migrating.run_modify.1 hrequire]
      have himports := subset_foldl_add [Framework.enterValue] session.imports
      rw [List.append_subset, List.cons_subset] at himports
      refine ⟨himports.1, .inr ⟨hnone, ?_, fun _ => himports.2.1⟩⟩
      rw [List.isEmpty_iff.1 hempty]
      rfl
    next hsome =>
      obtain ⟨rfl, rfl⟩ := Migrating.run_pure.1 h
      refine ⟨List.Subset.refl _, .inr ⟨hnone, rfl, fun heq => ?_⟩⟩
      have hlength := congrArg String.length heq
      rw [String.length_append, String.length_ofList] at hlength
      have hzero : stem.length = 0 := by
        have henter : "Enter".length = 5 := rfl
        omega
      exact absurd (List.isEmpty_iff.2 (List.length_eq_zero_iff.1 hzero)) hsome

/-- The names that the annotation of a parameter for the carrier is written with. -/
def Plan.receiverNames (plan : Plan) : List String :=
  match plan.locals.exitEnter with
  | some enter => enter.annot.names
  | none => plan.enterEmits.map (·.1)

/-- The annotations of a migrated exit method are old ones, the one of a new parameter and those that ask for what it writes. -/
theorem emits_migrateExit {plan : Plan} {exit : AdviceMethod} {method method' : Method}
    {enterPacked : Bool} {session session' : Session} (hexit : plan.exit = some exit)
    (hnodup : (method.params.map (·.id)).Nodup)
    (hlength : plan.locals.enter.length = plan.locals.exit.length)
    (hmarker : "OnMethodExit".toList <:+ exit.markerName.toList)
    (h : (plan.migrateExit exit method enterPacked).run session = .ok (method', session')) :
    method'.annotNames ⊆ method.annotNames ++
        (plan.receiverNames ++ (writeTargets plan.exitWrites).flatMap (·.names)) ∧
      Requires (writeTargets plan.exitWrites) session session' ∧
      ∀ entry ∈ plan.enterEmits, entry.1 = "Enter" → Framework.enterValue ∈ session'.imports := by
  obtain ⟨moved, change, middle, next, finished, hmove, hfinish, rfl⟩ := run_migrateExit h
  rcases hmove with ⟨hnonempty, annot, hannot, hmove⟩ | ⟨hempty, rfl, -, rfl, -⟩
  · obtain ⟨himports, hreceiver⟩ := emits_exitAnnot hmarker hannot
    obtain ⟨erased, extra, herased, hmoved, hextra⟩ := head_transformExit hlength hmove
    have hannotations : moved.annotations = method.annotations :=
      hmoved.annotations.trans (herased.annotations.trans (eraseParams_rest _ _).2)
    have hparams : moved.params ⊆ method.params ++ extra := by
      rw [hmoved.params, herased.params]
      exact append_subset_append (eraseParams_subset hnodup _) (List.Subset.refl _)
    obtain ⟨hnames, hrequires⟩ := annotNames_of_finished hannotations hparams hfinish
    rw [valueTargets_ofBindings] at hnames hrequires
    have hannotNames : annot.names ⊆ plan.receiverNames := by
      rw [Plan.receiverNames]
      rcases hreceiver with ⟨enter, henter, rfl⟩ | ⟨hnone, hnames, -⟩
      · rw [henter]
        exact List.Subset.refl _
      · rw [hnone, Plan.enterEmits, hexit, hnames]
        simp [hnonempty, hnone]
    have hextraNames : (extra.flatMap fun param => Annot.listNames param.annotations) ⊆
        plan.receiverNames := by
      rcases hextra with rfl | ⟨id, type, var, rfl⟩
      · exact List.nil_subset _
      · rw [List.flatMap_singleton, Param.single, Annot.listNames, List.flatMap_singleton]
        exact hannotNames
    refine ⟨List.Subset.trans hnames (append_subset_append (List.Subset.refl _)
      (append_subset_append hextraNames (List.Subset.refl _))),
      ⟨List.Subset.trans himports hrequires.earlier, hrequires.targets⟩, fun entry hentry hname => ?_⟩
    rw [Plan.enterEmits, hexit] at hentry
    dsimp only at hentry
    split at hentry
    next hnew =>
      obtain rfl := List.mem_singleton.1 hentry
      rcases hreceiver with ⟨enter, henter, -⟩ | ⟨-, -, hrequired⟩
      · rw [henter, Option.isNone_some, Bool.and_false] at hnew
        cases hnew
      · exact hrequires.earlier (hrequired hname)
    next => cases hentry
  · obtain ⟨hnames, hrequires⟩ := @annotNames_of_finished _ _ [] _ _ _ _ _ _ _ rfl
      (List.subset_append_left _ _) hfinish
    rw [valueTargets_ofBindings] at hnames hrequires
    refine ⟨List.Subset.trans hnames (append_subset_append (List.Subset.refl _)
      (List.subset_append_right _ _)), ⟨hrequires.earlier, hrequires.targets⟩, ?_⟩
    rw [Plan.enterEmits, hexit, hempty]
    exact nofun

/-! ### Classes -/

theorem element?_of_roleOf_field {qualified : String} {annot : Annot} {value : ElementValue}
    (h : Binding.roleOf qualified annot = .ok (.field value)) :
    annot.element? "value" = some value := by
  rw [Binding.roleOf] at h
  split at h
  · split at h <;> cases h
  · split at h
    · split at h <;> cases h
    · split at h
      · split at h
        next name hname =>
          cases h
          exact hname
        next => cases h
      · split at h
        · cases h
        · split at h <;> cases h

/-- Whether a method is the given advice method. -/
def IsAdvice (advice : Option AdviceMethod) (method : Method) : Prop :=
  ∃ found, advice = some found ∧ found.id = method.id

/-- What a step does to the annotations of methods: it may add some to the given advice method. -/
def Spells (advice : Option AdviceMethod) (names : List String) (method method' : Method) : Prop :=
  method'.id = method.id ∧ (method'.annotNames ⊆ method.annotNames ∨
    IsAdvice advice method ∧ method'.annotNames ⊆ method.annotNames ++ names)

theorem Spells.refl (advice : Option AdviceMethod) (names : List String) (method : Method) :
    Spells advice names method method := ⟨rfl, .inl (List.Subset.refl _)⟩

theorem exists_method? {decl : TypeDecl} {method : Method} (h : method ∈ decl.methods) :
    ∃ found, decl.method? method.id = some found := by
  rw [← Option.isSome_iff_exists, TypeDecl.method?, List.find?_isSome]
  exact ⟨method, h, beq_self_eq_true _⟩

/-- An advice method of a class is found in a class whose methods correspond to those of the first one. -/
theorem AdviceMethod.Found.exists_method? {decl decl' : TypeDecl} {scope : TypeScope}
    {marker : String} {advice : AdviceMethod} {method : Method}
    (h : AdviceMethod.Found decl scope marker advice method)
    (hmethods : List.Forall₂ (fun method method' => method'.id = method.id)
      decl.methods decl'.methods) :
    ∃ found, decl'.method? advice.id = some found := by
  obtain ⟨method', hmem, hid⟩ := exists_of_mem_forall₂ hmethods.flip h.mem
  exact h.id.trans hid.symm ▸ Advice.exists_method? hmem

theorem emits_applyEnter {plan : Plan} {decl decl' : TypeDecl} {values : List ValueToReturn}
    {session session' : Session} (hdistinct : DistinctMethods decl.methods)
    (hfound : ∀ enter, plan.enter = some enter → ∃ method, decl.method? enter.id = some method)
    (h : (plan.applyEnter decl).run session = .ok ((decl', values), session')) :
    List.Forall₂ (Spells plan.enter ((writeTargets plan.enterWrites).flatMap (·.names)))
        decl.methods decl'.methods ∧
      Requires (writeTargets plan.enterWrites) session session' := by
  rcases run_applyEnter h with ⟨hmissing, rfl, rfl⟩ |
    ⟨enter, method, method', henter, hmethod, hmigrate, rfl⟩
  · have hnone : plan.enter = none := by
      rw [Option.eq_none_iff_forall_ne_some]
      intro enter henter
      obtain ⟨method, hmethod⟩ := hfound enter henter
      exact nomatch (hmissing enter henter).symm.trans hmethod
    rw [Plan.enterWrites, hnone]
    exact ⟨List.forall₂_same.2 fun method _ => .refl _ _ method, .refl _⟩
  · have hnodup := hdistinct.2 method (List.mem_of_find?_eq_some hmethod)
    have hid := (rewritten_migrateEnter hnodup hmigrate).1.id
    obtain ⟨hnames, hrequires⟩ := emits_migrateEnter hnodup hmigrate
    refine ⟨(replaceMethod_spec hdistinct hmethod hid).2.imp ?_, hrequires⟩
    rintro old new (⟨rfl, rfl⟩ | ⟨-, rfl⟩)
    · have hold : old.id = enter.id := by simpa using List.find?_some hmethod
      exact ⟨hid, .inr ⟨⟨enter, henter, hold.symm⟩, hnames⟩⟩
    · exact .refl _ _ new

theorem emits_applyExit {plan : Plan} {scope : TypeScope} {original decl decl' : TypeDecl}
    {enterPacked : Bool} {session session' : Session} (hreads : plan.Reads scope original)
    (hdistinct : DistinctMethods decl.methods)
    (hfound : ∀ exit, plan.exit = some exit → ∃ method, decl.method? exit.id = some method)
    (h : (plan.applyExit decl enterPacked).run session = .ok (decl', session')) :
    List.Forall₂ (Spells plan.exit
        (plan.receiverNames ++ (writeTargets plan.exitWrites).flatMap (·.names)))
        decl.methods decl'.methods ∧
      Requires (writeTargets plan.exitWrites) session session' ∧
      ∀ entry ∈ plan.enterEmits, entry.1 = "Enter" → Framework.enterValue ∈ session'.imports := by
  rcases run_applyExit h with ⟨hmissing, rfl, rfl⟩ |
    ⟨exit, method, method', hexit, hmethod, hmigrate, rfl⟩
  · have hnone : plan.exit = none := by
      rw [Option.eq_none_iff_forall_ne_some]
      intro exit hexit
      obtain ⟨method, hmethod⟩ := hfound exit hexit
      exact nomatch (hmissing exit hexit).symm.trans hmethod
    rw [Plan.exitWrites, Plan.enterEmits, hnone]
    refine ⟨List.forall₂_same.2 fun method _ => .refl _ _ method, .refl _, ?_⟩
    intro entry hentry
    cases hentry
  · have hnodup := hdistinct.2 method (List.mem_of_find?_eq_some hmethod)
    have hmarker := hreads.marker exit hexit
    obtain ⟨extra, hrewritten, -⟩ :=
      rewritten_migrateExit hnodup hreads.length hreads.spelled hmarker hmigrate
    obtain ⟨hnames, hrequires, henter⟩ :=
      emits_migrateExit hexit hnodup hreads.length hmarker hmigrate
    refine ⟨(replaceMethod_spec hdistinct hmethod hrewritten.id).2.imp ?_, hrequires, henter⟩
    rintro old new (⟨rfl, rfl⟩ | ⟨-, rfl⟩)
    · have hold : old.id = exit.id := by simpa using List.find?_some hmethod
      exact ⟨hrewritten.id, .inr ⟨⟨exit, hexit, hold.symm⟩, hnames⟩⟩
    · exact .refl _ _ new

/-- Writing the name of a field again adds no names. -/
theorem writeNames_subset {scope : TypeScope} {method : Method} {bindings writes : List Binding}
    (hbindings : Binding.ofMethod scope method = .ok bindings) (hwrites : writes ⊆ bindings) :
    (writeTargets writes).flatMap (·.names) ⊆
      method.annotNames ++ ((writeTargets writes).flatMap (·.emits)).map (·.1) := by
  intro name hname
  obtain ⟨target, htarget, hname⟩ := List.mem_flatMap.1 hname
  rcases List.mem_append.1 hname with hemitted | hvalue
  · refine List.mem_append_right _ ?_
    rw [List.map_flatMap]
    exact List.mem_flatMap.2 ⟨target, htarget, hemitted⟩
  · refine List.mem_append_left _ (List.mem_append_right _ ?_)
    obtain ⟨binding, hbinding, htarget⟩ := List.mem_filterMap.1 htarget
    obtain ⟨param, hparam, hof⟩ :=
      exists_of_mem_forall₂ (mapM_eq_ok_iff.1 hbindings) (hwrites hbinding)
    obtain ⟨value, hrole, hvalue⟩ : ∃ value, binding.role = .field value ∧
        name ∈ value.annotNames := by
      cases hrole : binding.role <;> rw [hrole] at htarget <;> cases htarget
      · cases hvalue
      · exact ⟨_, rfl, hvalue⟩
      · cases hvalue
    obtain ⟨-, -, ⟨-, hunbound, -⟩ | ⟨qualified, annot, hfind, hroleOf, -⟩⟩ :=
      Binding.ofParam_eq_ok hof
    · cases hrole.symm.trans hunbound
    · obtain ⟨-, hget, -⟩ := Binding.findRole?_eq_some hfind
      have helement := element?_of_roleOf_field (hrole ▸ hroleOf)
      exact List.mem_flatMap.2 ⟨param, hparam, Annot.mem_listNames.2
        ⟨annot, List.mem_of_getElem? hget, Annot.annotNames_subset_of_element? helement hvalue⟩⟩

/-- The annotation of the exit parameter that receives what the enter method returned is one of the exit method. -/
theorem enterAnnot_subset {decl : TypeDecl} {exit : AdviceMethod} {method : Method}
    (hmethod : decl.method? exit.id = some method) {enter : EnterParam}
    (h : AdviceLocals.enteredOf (exit.bound? decl) = .ok (some enter)) :
    enter.annot.names ⊆ method.annotNames := by
  rw [AdviceMethod.bound?, hmethod, Option.map_some, AdviceLocals.enteredOf,
    BoundMethod.entered] at h
  split at h
  next => cases h
  next binding hbinding =>
    obtain ⟨param, hparam, h⟩ := Option.bind_eq_some_iff.1 (Except.ok.inj h)
    obtain ⟨annot, hannot, h⟩ := Option.bind_eq_some_iff.1 h
    cases h
    have hmem : param ∈ method.params := List.mem_of_find?_eq_some hparam
    exact fun name hname => List.mem_append_right _ (List.mem_flatMap.2 ⟨param, hmem,
      Annot.mem_listNames.2 ⟨annot, List.mem_of_getElem? hannot, hname⟩⟩)
  next => cases h

/-- What an advice method is found as. -/
theorem found_of_isAdvice {decl : TypeDecl} {scope : TypeScope} {marker shortName : String}
    {advice : Option AdviceMethod} (hdistinct : DistinctMethods decl.methods)
    (hfind : AdviceMethod.find? decl scope marker shortName = .ok advice) {method : Method}
    (hmem : method ∈ decl.methods) (h : IsAdvice advice method) :
    ∃ found, advice = some found ∧ decl.method? found.id = some method ∧
      Binding.ofMethod scope method = .ok found.bindings := by
  obtain ⟨found, rfl, hid⟩ := h
  obtain ⟨other, hfound⟩ := AdviceMethod.find?_eq_some hfind
  obtain rfl := hfound.eq_of_id hdistinct.1 hmem hid
  exact ⟨found, rfl, hfound.method?_eq hdistinct.1, hfound.bindings⟩

/-- The exit method receives the carrier with an annotation that is emitted or that it has already. -/
theorem receiverNames_subset {plan : Plan} {scope : TypeScope} {decl : TypeDecl}
    (hcreates : plan.Creates decl scope) {exit : AdviceMethod} (hexit : plan.exit = some exit)
    {method : Method} (hmethod : decl.method? exit.id = some method) :
    plan.receiverNames ⊆ method.annotNames ++ plan.enterEmits.map (·.1) := by
  rw [Plan.receiverNames]
  split
  next enter henter =>
    have hentered := (AdviceLocals.create_eq_ok hcreates.locals).2.2.2
    rw [hexit, Option.bind_some, henter] at hentered
    exact fun name hname => List.mem_append_left _ (enterAnnot_subset hmethod hentered hname)
  next => exact List.subset_append_right _ _

theorem map_emits (plan : Plan) : plan.emits.map (·.1) =
    ((writeTargets plan.enterWrites).flatMap (·.emits)).map (·.1) ++
      ((writeTargets plan.exitWrites).flatMap (·.emits)).map (·.1) ++
        plan.enterEmits.map (·.1) := by
  rw [Plan.emits, writeTargets, List.filterMap_append, List.flatMap_append, List.map_append,
    List.map_append]
  rfl

/-- The two steps add names that the plan emits, or that the method has already. -/
theorem spells_subset {plan : Plan} {scope : TypeScope} {decl : TypeDecl}
    (hcreates : plan.Creates decl scope) (hdistinct : DistinctMethods decl.methods)
    {method moved entered method' : Method} (hmem : method ∈ decl.methods)
    (hhead : SameHead method moved)
    (henter : Spells plan.enter ((writeTargets plan.enterWrites).flatMap (·.names)) moved entered)
    (hexit : Spells plan.exit
      (plan.receiverNames ++ (writeTargets plan.exitWrites).flatMap (·.names)) entered method') :
    method'.annotNames ⊆ method.annotNames ++ plan.emits.map (·.1) := by
  have hmoved : moved.annotNames = method.annotNames := by
    rw [Method.annotNames, hhead.annotations, hhead.params, Method.annotNames]
  have hemitted : ∀ {part : List String}, part ⊆ plan.emits.map (·.1) →
      method.annotNames ++ part ⊆ method.annotNames ++ plan.emits.map (·.1) :=
    fun h => append_subset_append (List.Subset.refl _) h
  obtain ⟨henterEmits, hexitEmits, hreceiverEmits⟩ :
      ((writeTargets plan.enterWrites).flatMap (·.emits)).map (·.1) ⊆ plan.emits.map (·.1) ∧
        ((writeTargets plan.exitWrites).flatMap (·.emits)).map (·.1) ⊆ plan.emits.map (·.1) ∧
        plan.enterEmits.map (·.1) ⊆ plan.emits.map (·.1) := by
    simp [map_emits, List.append_assoc]
  have hentered : entered.annotNames ⊆ method.annotNames ++ plan.emits.map (·.1) := by
    rcases henter.2 with hkept | ⟨hadvice, hadded⟩
    · exact List.Subset.trans (hmoved ▸ hkept) (List.subset_append_left _ _)
    · obtain ⟨found, hplan, -, hbindings⟩ := found_of_isAdvice hdistinct hcreates.enter hmem
        (hadvice.imp fun _ h => ⟨h.1, h.2.trans hhead.id⟩)
      have hwrites := writeNames_subset hbindings fun _ hmem =>
        (Plan.of_mem_enterWrites hplan hmem).1
      exact List.Subset.trans (hmoved ▸ hadded) (List.append_subset.2
        ⟨List.subset_append_left _ _, List.Subset.trans hwrites (hemitted henterEmits)⟩)
  rcases hexit.2 with hkept | ⟨hadvice, hadded⟩
  · exact List.Subset.trans hkept hentered
  · obtain ⟨found, hplan, hmethod, hbindings⟩ := found_of_isAdvice hdistinct hcreates.exit hmem
      (hadvice.imp fun _ h => ⟨h.1, h.2.trans (henter.1.trans hhead.id)⟩)
    have hwrites := writeNames_subset hbindings fun _ hmem =>
      (Plan.of_mem_exitWrites hplan hmem).1
    have hreceiver := receiverNames_subset hcreates hplan hmethod
    exact List.Subset.trans hadded (List.append_subset.2 ⟨hentered, List.append_subset.2
      ⟨List.Subset.trans hreceiver (hemitted hreceiverEmits),
        List.Subset.trans hwrites (hemitted hexitEmits)⟩⟩)

theorem insertContainer_imports {plan : Plan} {decl decl' : TypeDecl} {session session' : Session}
    (h : (plan.insertContainer decl).run session = .ok (decl', session')) :
    session'.imports = session.imports := by
  rcases run_insertContainer h with ⟨-, -, rfl⟩ | ⟨-, _, -, hsession, -⟩
  · rfl
  · rw [hsession]

/-- Every annotation on a method of a changed class was there before or is one that its plan emits, and the imports that the emitted ones need are required. -/
theorem emits_transform? {plan : Plan} {scope : TypeScope} {decl decl' : TypeDecl}
    {session session' : Session} (hreads : plan.Reads scope decl)
    (hdistinct : DistinctMethods decl.methods)
    (h : (plan.transform? decl).run session = .ok (some decl', session')) :
    List.Forall₂ (fun method method' => method'.id = method.id ∧
        method'.annotNames ⊆ method.annotNames ++ plan.emits.map (·.1))
        decl.methods decl'.methods ∧
      Requires (writeTargets (plan.enterWrites ++ plan.exitWrites)) session session' ∧
      ∀ entry ∈ plan.enterEmits, entry.1 = "Enter" → Framework.enterValue ∈ session'.imports := by
  rcases run_transform? h with ⟨-, ⟨⟩, -⟩ |
    ⟨decl₁, decl₂, _, values, session₁, session₂, -, hinsert, henter, hexit, ⟨⟩⟩
  obtain ⟨-, hmethods₁, -⟩ := insertContainer_spec hinsert
  have hdistinct₁ := hdistinct.of_sameHead hmethods₁
  obtain ⟨-, hsteps₂, -⟩ := applyEnter_spec hdistinct₁ henter
  have hdistinct₂ := hdistinct₁.of_enterStep hsteps₂
  have hfound₁ : ∀ enter, plan.enter = some enter →
      ∃ method, decl₁.method? enter.id = some method := by
    intro enter hsome
    obtain ⟨method, hfound⟩ := AdviceMethod.find?_eq_some (hsome ▸ hreads.creates.enter)
    exact hfound.exists_method? (hmethods₁.imp fun _ _ hhead => hhead.id)
  obtain ⟨hmethods₂, hrequires⟩ := emits_applyEnter hdistinct₁ hfound₁ henter
  have hfound₂ : ∀ exit, plan.exit = some exit →
      ∃ method, decl₂.method? exit.id = some method := by
    intro exit hsome
    obtain ⟨method, hfound⟩ := AdviceMethod.find?_eq_some (hsome ▸ hreads.creates.exit)
    exact hfound.exists_method? (forall₂_comp
      (fun _ _ _ hhead hspells => hspells.1.trans hhead.id) hmethods₁ hmethods₂)
  obtain ⟨hmethods₃, hrequires', hentered⟩ := emits_applyExit hreads hdistinct₂ hfound₂ hexit
  refine ⟨?_, ?_, hentered⟩
  · have hsteps : List.Forall₂ (fun moved method' => ∃ entered,
        Spells plan.enter ((writeTargets plan.enterWrites).flatMap (·.names)) moved entered ∧
        Spells plan.exit (plan.receiverNames ++
          (writeTargets plan.exitWrites).flatMap (·.names)) entered method')
        decl₁.methods decl'.methods :=
      forall₂_comp (fun _ entered _ h h' => ⟨entered, h, h'⟩) hmethods₂ hmethods₃
    refine forall₂_comp ?_ (forall₂_and_mem hmethods₁) hsteps
    rintro method moved method' ⟨hhead, hmem, -⟩ ⟨entered, hspells, hspells'⟩
    exact ⟨hspells'.1.trans (hspells.1.trans hhead.id),
      spells_subset hreads.creates hdistinct hmem hhead hspells hspells'⟩
  · have hall := hrequires.trans hrequires'
    rw [writeTargets, List.filterMap_append]
    exact ⟨insertContainer_imports hinsert ▸ hall.earlier, hall.targets⟩

end AdviceMigration.Advice
