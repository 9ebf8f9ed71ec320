import AdviceMigration.Proofs.Advice.Frames
import AdviceMigration.Proofs.Advice.Intact

/-!
# No name is left behind

A migration removes parameters, adds variables, puts copies of names into every `return`, folds assignments away and prunes declarations. After all of it, a name of an advice method that refers to nothing is one that referred to nothing before.
-/

namespace AdviceMigration.Advice

open AdviceMigration.Source AdviceMigration.Scope

/-! ### The supply of identities -/

theorem grows_visitAll (visited : List Mention) : (Traversal.renumber.visitAll visited).Grows := by
  induction visited with
  | nil => exact .pure _
  | cons mention rest ih =>
    refine .bind ?_ fun answer => ih.bind fun _ => .pure _
    cases mention with
    | decl id => exact Fresh.grows_id.bind fun _ => .pure _
    | name id name => exact (Expr.grows_fresh name).bind fun _ => .pure _

theorem grows_freshCopy (expr : Expr) : expr.freshCopy.Grows := by
  obtain ⟨visited, htrace⟩ := expr.traverse_traced
  obtain ⟨rebuild, hrebuild⟩ := htrace.rebuild
  rw [Expr.freshCopy, hrebuild]
  exact (grows_visitAll visited).bind fun _ => .pure _

theorem grows_packReturn (template : Expr) (body : Block) (path : StmtPath) :
    (packReturn template body path).Grows := by
  rw [packReturn]
  split
  · exact .pure _
  · refine (grows_freshCopy template).bind fun copy => ?_
    dsimp only
    split
    · exact .pure _
    · split <;> exact .pure _

theorem grows_packReturnsAt (template : Expr) (paths : List StmtPath) (body : Block) :
    (packReturnsAt template body paths).Grows := by
  induction paths generalizing body with
  | nil => exact .pure _
  | cons path rest ih =>
    refine (grows_packReturn template body path).bind fun answer => ?_
    split
    · exact ih _
    · exact .pure _

theorem grows_nameSlots (values : List ValueToReturn) : (nameSlots values).Grows := by
  induction values with
  | nil => exact .pure _
  | cons value rest ih => exact (Expr.grows_fresh _).bind fun _ => ih.bind fun _ => .pure _

theorem grows_packReturns (method : Method) (values : List ValueToReturn) :
    (packReturns method values).Grows := by
  have htemplate : (returnTemplate values).Grows := by
    unfold returnTemplate
    split
    · exact .pure _
    · exact (Expr.grows_fresh _).bind fun _ => .pure _
    · exact (grows_nameSlots values).bind fun _ => .pure _
  refine htemplate.bind fun template => ?_
  split
  · exact .pure _
  · split
    · exact .pure _
    · refine (grows_packReturnsAt _ _ _).bind fun answer => ?_
      split <;> exact .pure _

theorem grows_storeReturnsAt (target : Expr) (paths : List StmtPath) (body : Block) :
    (AdviceLocals.storeReturnsAt target body paths).Grows := by
  induction paths generalizing body with
  | nil => exact .pure _
  | cons path rest ih =>
    refine Fresh.Grows.bind ?_ fun answer => ?_
    · unfold AdviceLocals.storeReturn
      split
      · refine (grows_freshCopy target).bind fun copy => ?_
        dsimp only
        split <;> exact .pure _
      · exact .pure _
    · split
      · exact ih _
      · exact .pure _

theorem grows_storeReturns (locals : AdviceLocals) (var : String) (body : Block) :
    (locals.storeReturns var body).Grows := by
  rw [AdviceLocals.storeReturns]
  split
  · exact .pure _
  · refine Fresh.Grows.bind (fun next => ?_) fun target => grows_storeReturnsAt target _ _
    rw [run_access]
    exact Nat.le_succ next

theorem grows_container (locals : AdviceLocals) : locals.container.Grows := by
  have hfields : ∀ params, (AdviceLocals.fieldsFor params).Grows := by
    intro params
    induction params with
    | nil => exact .pure _
    | cons param rest ih => exact Fresh.grows_id.bind fun _ => ih.bind fun _ => .pure _
  exact Fresh.grows_id.bind fun _ => (hfields _).bind fun _ => .pure _

theorem le_finishMethod {method method' : Method} {marker : Nat} {values : List ValueToReturn}
    {session session' : Session}
    (h : (finishMethod method marker values).run session = .ok (method', session')) :
    session.nextId ≤ session'.nextId := by
  rcases run_finishMethod h with ⟨-, -, rfl⟩ | ⟨-, packed, next, hpack, -, rfl⟩
  · exact Nat.le_refl _
  · have hle := grows_packReturns (annotate method values marker) values session.nextId
    rwa [hpack] at hle

theorem le_transformEnter {locals : AdviceLocals} {method moved : Method} {next next' : NodeId}
    {carrier : Option ValueToReturn} (hids : method.Identified next)
    (h : (locals.transformEnter method).run next = ((moved, .ok carrier), next')) :
    next ≤ next' := by
  rcases run_transformEnter hids h with ⟨-, -, -, rfl⟩ | ⟨base, type, spelling, middle, body, stored,
    last, -, -, hle, -, -, hstored, -, -, rfl⟩
  · exact Nat.le_refl _
  · have hgrows := grows_storeReturns locals ((TakenNames.ofMethod method
      (locals.enter.map (·.2.param))).freshName base) (body.respell spelling) middle
    rw [hstored] at hgrows
    exact Nat.le_succ_of_le (Nat.le_trans hle hgrows)

/-! ### The two methods -/

/-- Dropping elements does not matter to names. -/
theorem foldl_dropReadOnly_scope (writes : List Binding) (method : Method) :
    (writes.foldl dropReadOnly method).body = method.body ∧
      paramEvents (writes.foldl dropReadOnly method).params = paramEvents method.params ∧
      (writes.foldl dropReadOnly method).params.map (·.name) = method.params.map (·.name) := by
  induction writes generalizing method with
  | nil => exact ⟨rfl, rfl, rfl⟩
  | cons binding rest ih =>
    obtain ⟨hbody, hevents, hnames⟩ := ih (dropReadOnly method binding)
    have hsame : ∀ param : Param, (withoutReadOnly binding param).name = param.name ∧
        (withoutReadOnly binding param).id = param.id := by
      intro param
      rw [withoutReadOnly]
      split <;> exact ⟨rfl, rfl⟩
    have hparams : (dropReadOnly method binding).params =
        method.params.map (withoutReadOnly binding) := rfl
    refine ⟨hbody, hevents.trans ?_, hnames.trans ?_⟩
    · rw [paramEvents, hparams, List.map_map, paramEvents]
      refine List.map_congr_left fun param _ => ?_
      rw [Function.comp, (hsame param).1, (hsame param).2]
    · rw [hparams, List.map_map]
      exact List.map_congr_left fun param _ => (hsame param).1

theorem Introduces.dropReadOnly {method : Method} {name : String} (h : Introduces method name)
    (writes : List Binding) : Introduces (writes.foldl Advice.dropReadOnly method) name := by
  obtain ⟨hbody, -, hnames⟩ := foldl_dropReadOnly_scope writes method
  rw [Introduces, hbody, hnames]
  exact h

/-- The steps that the migrations of both methods share, from the hand-over on. -/
theorem intact_of_finished {writes : List Binding} {method moved finished : Method} {marker : Nat}
    {values : List ValueToReturn} {session session' : Session} {decls : List NodeId}
    (hmoved : Intact [] method moved) (hvalues : ∀ value ∈ values, Introduces moved value.name)
    (h : (finishMethod (writes.foldl dropReadOnly moved) marker values).run session =
      .ok (finished, session')) : Intact [] method (decls.foldl prune finished) := by
  obtain ⟨hbody, hevents, -⟩ := foldl_dropReadOnly_scope writes moved
  have hdropped : Intact [] moved (writes.foldl dropReadOnly moved) :=
    .of_eventsOf hmoved.free hbody hevents
  have hfinished := intact_finishMethod hdropped.free
    (fun value hvalue => (hvalues value hvalue).dropReadOnly writes) h
  exact hmoved.trans (hdropped.trans (hfinished.trans (intact_foldl_prune decls hfinished.free)))

/-- Whether writes are to parameters that stay. -/
def WritesKept (method : Method) (removed : List NodeId) (writes : List Binding) : Prop :=
  ∀ binding ∈ writes, binding.name ∈ (AdviceLocals.eraseParams method removed).params.map (·.name)

theorem name_of_ofBinding? {writes : List Binding} {value : ValueToReturn}
    (h : value ∈ writes.filterMap ValueToReturn.ofBinding?) :
    ∃ binding ∈ writes, value.name = binding.name := by
  obtain ⟨binding, hbinding, hvalue⟩ := List.mem_filterMap.1 h
  obtain ⟨target, -, rfl⟩ := Option.map_eq_some_iff.1 hvalue
  exact ⟨binding, hbinding, rfl⟩

theorem intact_migrateEnter {plan : Plan} {enter : AdviceMethod} {method method' : Method}
    {values : List ValueToReturn} {session session' : Session} (hfree : NoPatterns method)
    (hnodup : (method.params.map (·.id)).Nodup) (hids : method.Identified session.nextId)
    (hwrites : WritesKept method (plan.locals.enter.map (·.2.param)) plan.enterWrites)
    (h : (plan.migrateEnter enter method).run session = .ok ((method', values), session')) :
    Intact [] method method' ∧ session.nextId ≤ session'.nextId := by
  obtain ⟨moved, carrier, next, finished, hmove, rfl, hfinish, rfl⟩ := run_migrateEnter h
  have hmoved : Intact [] method moved ∧ (∀ value, carrier = some value →
      Introduces moved value.name) ∧ session.nextId ≤ next ∧ moved.params =
        (AdviceLocals.eraseParams method (plan.locals.enter.map (·.2.param))).params := by
    rcases hmove with ⟨-, hmove⟩ | ⟨hempty, rfl, rfl, rfl⟩
    · obtain ⟨hintact, hcarrier⟩ := intact_transformEnter hfree hnodup hids hmove
      exact ⟨hintact, hcarrier, le_transformEnter hids hmove, (sameHead_transformEnter hmove).params⟩
    · rw [(eq_nil_of_isNonempty hempty).1]
      exact ⟨.refl hfree, nofun, Nat.le_refl _, rfl⟩
  obtain ⟨hintact, hcarrier, hle, hparams⟩ := hmoved
  refine ⟨intact_of_finished hintact (fun value hvalue => ?_) hfinish,
    Nat.le_trans hle (le_finishMethod hfinish)⟩
  rcases List.mem_append.1 hvalue with hvalue | hvalue
  · exact hcarrier value (Option.mem_toList.1 hvalue)
  · obtain ⟨binding, hbinding, hname⟩ := name_of_ofBinding? hvalue
    rw [hname, Introduces, hparams]
    exact .inl (hwrites binding hbinding)

theorem nextId_exitAnnot {plan : Plan} {exit : AdviceMethod} {annot : Annot}
    {session session' : Session} (h : (plan.exitAnnot exit).run session = .ok (annot, session')) :
    session'.nextId = session.nextId := by
  have hrequire : ∀ {path : String} {annot' : Annot},
      (do Migrating.requireImport path; return annot' : Migrating Annot).run session =
        .ok (annot, session') → session'.nextId = session.nextId := by
    intro path annot' h
    obtain ⟨_, middle, hmodify, h⟩ := Migrating.run_bind.1 h
    obtain ⟨-, rfl⟩ := Migrating.run_pure.1 h
    rw [← Migrating.run_modify.1 hmodify]
  rw [Plan.exitAnnot] at h
  split at h
  · obtain ⟨-, rfl⟩ := Migrating.run_pure.1 h
    rfl
  · rw [enterAnnot] at h
    extract_lets at h
    split at h
    · split at h
      · exact hrequire h
      · obtain ⟨-, rfl⟩ := Migrating.run_pure.1 h
        rfl
    · exact hrequire h

theorem exitParams_eq_nil_of_isNonempty {locals : AdviceLocals}
    (hlength : locals.enter.length = locals.exit.length) (h : locals.isNonempty = false) :
    locals.exitParams = [] := by
  obtain ⟨henter, hnone⟩ := eq_nil_of_isNonempty h
  rw [henter] at hlength
  rw [AdviceLocals.exitParams, List.length_eq_zero_iff.1 hlength.symm, hnone]
  rfl

theorem intact_migrateExit {plan : Plan} {exit : AdviceMethod} {method method' : Method}
    {enterPacked : Bool} {session session' : Session} (hfree : NoPatterns method)
    (hnodup : (method.params.map (·.id)).Nodup) (hids : method.Identified session.nextId)
    (hlength : plan.locals.enter.length = plan.locals.exit.length)
    (hwrites : WritesKept method plan.locals.exitParams plan.exitWrites)
    (h : (plan.migrateExit exit method enterPacked).run session = .ok (method', session')) :
    Intact [] method method' ∧ method'.id = method.id := by
  obtain ⟨moved, change, middle, next, finished, hmove, hfinish, rfl⟩ := run_migrateExit h
  have hmoved : Intact [] method moved ∧ moved.id = method.id ∧ ∃ extra, moved.params =
      (AdviceLocals.eraseParams method plan.locals.exitParams).params ++ extra := by
    rcases hmove with ⟨-, annot, hannot, hmove⟩ | ⟨hempty, rfl, -, -, -⟩
    · rw [nextId_exitAnnot hannot] at hmove
      obtain ⟨erased, extra, herased, hhead, -⟩ := head_transformExit hlength hmove
      refine ⟨intact_transformExit hfree hnodup hids hmove, ?_, extra, ?_⟩
      · exact hhead.id.trans (herased.id.trans (eraseParams_rest method _).1)
      · rw [hhead.params, herased.params]
    · rw [exitParams_eq_nil_of_isNonempty hlength hempty]
      exact ⟨.refl hfree, rfl, [], (List.append_nil _).symm⟩
  obtain ⟨hintact, hid, extra, hparams⟩ := hmoved
  refine ⟨intact_of_finished hintact (fun value hvalue => ?_) hfinish, ?_⟩
  · obtain ⟨binding, hbinding, hname⟩ := name_of_ofBinding? hvalue
    rw [hname, Introduces, hparams, List.map_append]
    exact .inl (List.mem_append_left _ (hwrites binding hbinding))
  · have hdropped := (foldl_dropReadOnly_rest plan.exitWrites moved).1
    exact (head_foldl_prune _ finished).1.trans ((head_finishMethod hfinish).1.trans
      (hdropped.trans hid))

/-! ### Writes -/

/-- A parameter that is written back is not among those that are handed over. -/
theorem writesKept_of_bindings {scope : TypeScope} {method : Method} {bindings writes : List Binding}
    {removed : List NodeId} (hnodup : (method.params.map (·.id)).Nodup)
    (hbindings : Binding.ofMethod scope method = .ok bindings)
    (hwrites : ∀ binding ∈ writes, binding ∈ bindings ∧ binding.isWritable)
    (hremoved : ∀ id ∈ removed, ∃ binding ∈ bindings, binding.param = id ∧ ¬ binding.isWritable) :
    WritesKept method removed writes := by
  have hparam : ∀ binding ∈ bindings, ∃ param ∈ method.params,
      Binding.ofParam scope param = .ok binding :=
    fun binding hmem => exists_of_mem_forall₂ (mapM_eq_ok_iff.1 hbindings) hmem
  intro binding hmem
  obtain ⟨hbinding, hwritable⟩ := hwrites binding hmem
  obtain ⟨param, hmemParam, hofParam⟩ := hparam binding hbinding
  obtain ⟨hid, hname, -⟩ := Binding.ofParam_eq_ok hofParam
  rw [params_eraseParams hnodup, hname]
  refine List.mem_map_of_mem (List.mem_filter.2 ⟨hmemParam, ?_⟩)
  have hnot : param.id ∉ removed := by
    intro hgone
    obtain ⟨other, hother, hsame, hnotWritable⟩ := hremoved param.id hgone
    obtain ⟨param', hmemParam', hofParam'⟩ := hparam other hother
    have hid' := (Binding.ofParam_eq_ok hofParam').1
    have heq : param' = param :=
      List.inj_on_of_nodup_map hnodup hmemParam' hmemParam (hid'.symm.trans hsame)
    rw [heq, hofParam] at hofParam'
    cases hofParam'
    exact hnotWritable hwritable
  simpa using hnot

theorem not_isWritable_of_key? {binding : Binding} {key : String} (h : binding.key? = some key) :
    ¬ binding.isWritable := by
  rw [Binding.key?] at h
  split at h
  next hrole => simp [Binding.isWritable, hrole]
  next => cases h

theorem not_isWritable_of_isEntered {binding : Binding} (h : binding.isEntered) :
    ¬ binding.isWritable := by
  rw [Binding.isEntered] at h
  split at h
  next hrole => simp [Binding.isWritable, hrole]
  next => cases h

/-- A shared parameter is that of a binding. -/
theorem exists_of_mem_shared {bound : BoundMethod} {entry : String × HandedParam}
    (h : entry ∈ bound.shared) :
    ∃ binding ∈ bound.bindings, binding.param = entry.2.param ∧ ¬ binding.isWritable := by
  obtain ⟨binding, hbinding, hkey⟩ := List.mem_filterMap.1 h
  obtain ⟨key, hsome, rfl⟩ := Option.map_eq_some_iff.1 hkey
  exact ⟨binding, hbinding, rfl, not_isWritable_of_key? hsome⟩

/-- The parameter for what the enter method returned is that of a binding. -/
theorem mem_of_entered {bound : BoundMethod} {enter : EnterParam}
    (h : bound.entered = .ok (some enter)) :
    ∃ binding ∈ bound.bindings, binding.param = enter.value.param ∧ binding.isEntered := by
  have hfilter : ∀ binding, binding ∈ bound.bindings.filter (·.isEntered) →
      binding ∈ bound.bindings ∧ binding.isEntered = true := fun binding => List.mem_filter.1
  rw [BoundMethod.entered] at h
  split at h
  next => cases h
  next binding hsingle =>
    obtain ⟨hmem, hentered⟩ := hfilter binding (hsingle ▸ List.mem_singleton_self binding)
    have henter : bound.enterParam? binding = some enter := Except.ok.inj h
    rw [BoundMethod.enterParam?] at henter
    obtain ⟨param, -, henter⟩ := Option.bind_eq_some_iff.1 henter
    obtain ⟨annot, -, henter⟩ := Option.bind_eq_some_iff.1 henter
    cases henter
    exact ⟨binding, hmem, rfl, hentered⟩
  next => cases h

theorem writesKept_enter {plan : Plan} {decl : TypeDecl} {scope : TypeScope}
    (hcreates : plan.Creates decl scope) (hdistinct : DistinctMethods decl.methods)
    {enter : AdviceMethod} (henter : plan.enter = some enter) {method : Method}
    (hmem : method ∈ decl.methods) (hid : method.id = enter.id) :
    WritesKept method (plan.locals.enter.map (·.2.param)) plan.enterWrites := by
  obtain ⟨other, hfound, hshared⟩ := hcreates.exists_enter hdistinct.1 henter
  obtain rfl := hfound.eq_of_id hdistinct.1 hmem hid.symm
  refine writesKept_of_bindings (hdistinct.2 _ hmem) hfound.bindings
    (fun binding => Plan.of_mem_enterWrites henter) fun id hremoved => ?_
  rw [hshared] at hremoved
  obtain ⟨entry, hentry, rfl⟩ := List.mem_map.1 hremoved
  exact exists_of_mem_shared hentry

theorem writesKept_exit {plan : Plan} {decl : TypeDecl} {scope : TypeScope}
    (hcreates : plan.Creates decl scope) (hdistinct : DistinctMethods decl.methods)
    {exit : AdviceMethod} (hexit : plan.exit = some exit) {method : Method}
    (hmem : method ∈ decl.methods) (hid : method.id = exit.id) :
    WritesKept method plan.locals.exitParams plan.exitWrites := by
  obtain ⟨other, hfound, hshared, hentered⟩ := hcreates.exists_exit hdistinct.1 hexit
  obtain rfl := hfound.eq_of_id hdistinct.1 hmem hid.symm
  refine writesKept_of_bindings (hdistinct.2 _ hmem) hfound.bindings
    (fun binding => Plan.of_mem_exitWrites hexit) fun id hremoved => ?_
  rcases List.mem_append.1 hremoved with hremoved | hremoved
  · rw [hshared] at hremoved
    obtain ⟨entry, hentry, rfl⟩ := List.mem_map.1 hremoved
    exact exists_of_mem_shared hentry
  · obtain ⟨enter, henter, rfl⟩ := Option.map_eq_some_iff.1 (Option.mem_toList.1 hremoved)
    rw [henter] at hentered
    obtain ⟨binding, hbinding, hparam, hisEntered⟩ := mem_of_entered hentered
    exact ⟨binding, hbinding, hparam, not_isWritable_of_isEntered hisEntered⟩

/-! ### Classes -/

/-- Whether each name of a method refers to something, or is one of another method that refers to nothing there. -/
def KeepsNames (method method' : Method) : Prop :=
  method'.id = method.id ∧ ∀ reference ∈ BodyScopes.referencesOf method',
    reference.resolution = none → reference ∈ BodyScopes.referencesOf method

theorem KeepsNames.refl (method : Method) : KeepsNames method method := ⟨rfl, fun _ hmem _ => hmem⟩

theorem KeepsNames.trans {method method' method'' : Method} (h : KeepsNames method method')
    (h' : KeepsNames method' method'') : KeepsNames method method'' :=
  ⟨h'.1.trans h.1, fun reference hmem hnone => h.2 reference (h'.2 reference hmem hnone) hnone⟩

theorem Intact.keepsNames {method method' : Method} (h : Intact [] method method')
    (hid : method'.id = method.id) : KeepsNames method method' :=
  ⟨hid, fun reference hmem hnone =>
    (h.names reference hmem hnone).resolve_left List.not_mem_nil⟩

/-- What is known of an advice method before it is migrated. -/
structure Prepared (next : NodeId) (removed : List NodeId) (writes : List Binding)
    (method : Method) : Prop where
  free : NoPatterns method
  nodup : (method.params.map (·.id)).Nodup
  identified : method.Identified next
  writes : WritesKept method removed writes

/-- One step of a class changes one method. -/
theorem forall₂_replaceMethod {decl : TypeDecl} {method method' : Method} {id : NodeId}
    (hdistinct : DistinctMethods decl.methods) (hfind : decl.method? id = some method)
    (hkeeps : KeepsNames method method') :
    List.Forall₂ (fun old new => KeepsNames old new ∧ (old.id = id ∨ new = old)) decl.methods
      (decl.replaceMethod method').methods := by
  have hid : method.id = id := by simpa using List.find?_some hfind
  refine (replaceMethod_spec hdistinct hfind hkeeps.1).2.imp ?_
  rintro old new (⟨rfl, rfl⟩ | ⟨-, rfl⟩)
  · exact ⟨hkeeps, .inl hid⟩
  · exact ⟨.refl new, .inr rfl⟩

theorem forall₂_self {id : Option NodeId} (methods : List Method) :
    List.Forall₂ (fun old new => KeepsNames old new ∧ (some old.id = id ∨ new = old)) methods
      methods :=
  List.forall₂_same.2 fun method _ => ⟨.refl method, .inr rfl⟩

theorem keepsNames_applyEnter {plan : Plan} {decl decl' : TypeDecl} {values : List ValueToReturn}
    {session session' : Session} (hdistinct : DistinctMethods decl.methods)
    (hprepared : ∀ enter, plan.enter = some enter → ∀ method ∈ decl.methods, method.id = enter.id →
      Prepared session.nextId (plan.locals.enter.map (·.2.param)) plan.enterWrites method)
    (h : (plan.applyEnter decl).run session = .ok ((decl', values), session')) :
    List.Forall₂ (fun old new => KeepsNames old new ∧
        (some old.id = plan.enter.map (·.id) ∨ new = old)) decl.methods decl'.methods ∧
      session.nextId ≤ session'.nextId := by
  rcases run_applyEnter h with ⟨-, rfl, rfl⟩ |
    ⟨enter, method, method', henter, hfind, hmigrate, rfl⟩
  · exact ⟨forall₂_self _, Nat.le_refl _⟩
  · have hid : method.id = enter.id := by simpa using List.find?_some hfind
    obtain ⟨hfree, hnodup, hids, hwrites⟩ :=
      hprepared enter henter method (List.mem_of_find?_eq_some hfind) hid
    obtain ⟨hintact, hle⟩ := intact_migrateEnter hfree hnodup hids hwrites hmigrate
    have hkeeps := hintact.keepsNames (rewritten_migrateEnter hnodup hmigrate).1.id
    refine ⟨(forall₂_replaceMethod hdistinct hfind hkeeps).imp fun old new hstep => ?_, hle⟩
    rw [henter, Option.map_some, Option.some_inj]
    exact hstep

theorem keepsNames_applyExit {plan : Plan} {decl decl' : TypeDecl} {enterPacked : Bool}
    {session session' : Session} (hdistinct : DistinctMethods decl.methods)
    (hlength : plan.locals.enter.length = plan.locals.exit.length)
    (hprepared : ∀ exit, plan.exit = some exit → ∀ method ∈ decl.methods, method.id = exit.id →
      Prepared session.nextId plan.locals.exitParams plan.exitWrites method)
    (h : (plan.applyExit decl enterPacked).run session = .ok (decl', session')) :
    List.Forall₂ KeepsNames decl.methods decl'.methods := by
  rcases run_applyExit h with ⟨-, rfl, rfl⟩ | ⟨exit, method, method', hexit, hfind, hmigrate, rfl⟩
  · exact List.forall₂_same.2 fun method _ => .refl method
  · have hid : method.id = exit.id := by simpa using List.find?_some hfind
    obtain ⟨hfree, hnodup, hids, hwrites⟩ :=
      hprepared exit hexit method (List.mem_of_find?_eq_some hfind) hid
    obtain ⟨hintact, hsame⟩ := intact_migrateExit hfree hnodup hids hlength hwrites hmigrate
    exact (forall₂_replaceMethod hdistinct hfind (hintact.keepsNames hsame)).imp
      fun _ _ hstep => hstep.1

/-- Inserting the container class changes no method but its layout. -/
theorem relaid_insertContainer {plan : Plan} {scope : TypeScope} {decl decl' : TypeDecl}
    {session session' : Session} (hcreates : plan.Creates decl scope)
    (hnodup : (memberIds decl.members).Nodup)
    (h : (plan.insertContainer decl).run session = .ok (decl', session')) :
    List.Forall₂ (fun old new => ∃ layout, new = { old with layout := layout }) decl.methods
      decl'.methods := by
  have hrefl : ∀ methods : List Method, List.Forall₂
      (fun old new => ∃ layout, new = { old with layout := layout }) methods methods :=
    fun methods => List.forall₂_same.2 fun method _ => ⟨method.layout, by cases method; rfl⟩
  rcases insertContainer_members hcreates hnodup h with ⟨-, rfl⟩ |
    ⟨-, enter, front, method, method', back, container, -, -, hrelaid, hold, -, rfl⟩
  · exact hrefl _
  · have hsplit : ∀ front back, methodsAmong (front ++ back) =
        methodsAmong front ++ methodsAmong back := by
      intro front back
      induction front with
      | nil => rfl
      | cons member rest ih => cases member <;> simp [methodsAmong, ih]
    rw [TypeDecl.methods_eq, TypeDecl.methods_eq, hold, hsplit, hsplit]
    exact List.rel_append (hrefl _) (.cons hrelaid (hrefl _))

theorem le_insertContainer {plan : Plan} {decl decl' : TypeDecl} {session session' : Session}
    (h : (plan.insertContainer decl).run session = .ok (decl', session')) :
    session.nextId ≤ session'.nextId := by
  rcases run_insertContainer h with ⟨-, -, rfl⟩ | ⟨-, container, hrun, -, -⟩
  · exact Nat.le_refl _
  · have hle := grows_container plan.locals session.nextId
    rwa [hrun] at hle

theorem identified_of_mem {decl : TypeDecl} {next : NodeId} (hdistinct : Distinct decl.mentions)
    (hbelow : ∀ mention ∈ decl.mentions, mention.id < next) {method : Method}
    (hmem : method ∈ decl.methods) : method.Identified next := by
  rw [TypeDecl.methods_eq, mem_methodsAmong] at hmem
  have hmentions : method.mentions ⊆ decl.mentions := fun mention hmention =>
    decl.members_mentions.subset (List.mem_flatMap.2 ⟨_, hmem, hmention⟩)
  exact .of_distinct (hdistinct.member hmem) fun mention hmention =>
    hbelow mention (hmentions hmention)

/-- Whether each name of a method refers to one of its declarations or, like the same name of another method, to nothing. -/
def LeavesNone (method method' : Method) : Prop :=
  ∀ occurrence ∈ (BodyScopes.ofMethod method').uses,
    (∃ found binder, occurrence.resolution = some found ∧
      .bind binder occurrence.name found.decl ∈ BodyScopes.eventsOf method') ∨
    ∃ old ∈ (BodyScopes.ofMethod method).uses, old.id = occurrence.id ∧
      old.name = occurrence.name ∧ old.resolution = none ∧ occurrence.resolution = none

theorem KeepsNames.leavesNone {method method' : Method} (h : KeepsNames method method') :
    LeavesNone method method' := by
  intro occurrence hoccurrence
  have hmem : ScopeReader.referenceOf occurrence ∈ BodyScopes.referencesOf method' :=
    BodyScopes.exists_use_iff.2 ⟨occurrence, hoccurrence, rfl⟩
  cases hresolution : occurrence.resolution with
  | some found =>
    obtain ⟨binder, hbind⟩ := exists_bind_of_resolution hmem hresolution
    exact .inl ⟨found, binder, rfl, hbind⟩
  | none =>
    obtain ⟨old, hold, heq⟩ := BodyScopes.exists_use_iff.1 (h.2 _ hmem hresolution)
    obtain ⟨hid, hname, hnone⟩ := Reference.mk.inj heq
    exact .inr ⟨old, hold, hid, hname, hnone.trans hresolution, rfl⟩

/-- Inserting the container leaves the advice methods as they were in the class, ready for their own step. -/
theorem prepared_of_relaid {plan : Plan} {decl decl' : TypeDecl} {start next : NodeId}
    (hdistinct : Distinct decl.mentions) (hbelow : ∀ mention ∈ decl.mentions, mention.id < start)
    (hfree : ∀ method ∈ decl.methods, method.id ∈ plan.adviceIds → NoPatterns method)
    (hrelaid : List.Forall₂ (fun old new => ∃ layout, new = { old with layout := layout })
      decl.methods decl'.methods)
    {advice : AdviceMethod} (hadvice : advice ∈ plan.enter.toList ++ plan.exit.toList)
    (hle : start ≤ next) {removed : List NodeId} {writes : List Binding}
    (hwrites : ∀ method ∈ decl.methods, method.id = advice.id → WritesKept method removed writes)
    {method : Method} (hmem : method ∈ decl'.methods) (hid : method.id = advice.id) :
    Prepared next removed writes method := by
  obtain ⟨old, hold, layout, rfl⟩ := exists_of_mem_forall₂ hrelaid hmem
  have hids := identified_of_mem hdistinct hbelow hold
  refine ⟨hfree old hold ?_, (DistinctMethods.of_distinct hdistinct).2 old hold,
    ⟨hids.nodup, fun name hname => ?_⟩, ?_⟩
  · rw [show old.id = advice.id from hid]
    exact List.mem_map_of_mem hadvice
  · exact Nat.lt_of_lt_of_le (hids.below name hname) hle
  · have hsame := (SameHead.eraseParams (⟨rfl, rfl, rfl⟩ : SameHead old
      { old with layout := layout }) removed).params
    rw [WritesKept, hsame]
    exact hwrites old hold hid

/-- After a migration every name of an advice method refers to a declaration that is still there, unless it referred to nothing before. -/
theorem transform?_leavesNone {plan : Plan} {scope : TypeScope} {decl decl' : TypeDecl}
    {session session' : Session} (hdistinct : Distinct decl.mentions)
    (hbelow : ∀ mention ∈ decl.mentions, mention.id < session.nextId)
    (hplan : Plan.create decl scope = .ok (some plan))
    (hapart : ∀ enter exit, plan.enter = some enter → plan.exit = some exit → enter.id ≠ exit.id)
    (hfree : ∀ method ∈ decl.methods, method.id ∈ plan.adviceIds → NoPatterns method)
    (h : (plan.transform? decl).run session = .ok (some decl', session')) :
    List.Forall₂ (fun method method' => method'.id = method.id ∧ LeavesNone method method')
      decl.methods decl'.methods := by
  have hcreates := Plan.creates_of_create hplan
  have hmethods := DistinctMethods.of_distinct hdistinct
  rcases run_transform? h with ⟨-, ⟨⟩, -⟩ |
    ⟨decl₁, decl₂, _, values, session₁, session₂, -, hinsert, henter, hexit, ⟨⟩⟩
  have hrelaid := relaid_insertContainer hcreates (nodup_memberIds hdistinct) hinsert
  have hle₁ := le_insertContainer hinsert
  have hmethods₁ : DistinctMethods decl₁.methods := by
    apply hmethods.of_forall₂ hrelaid
    · rintro method _ ⟨layout, rfl⟩
      rfl
    · rintro method _ ⟨layout, rfl⟩ hnodup
      exact hnodup
  obtain ⟨hstep, hle₂⟩ := keepsNames_applyEnter hmethods₁ (fun enter hsome method hmem hid =>
    have hadvice : enter ∈ plan.enter.toList ++ plan.exit.toList := by simp [hsome]
    prepared_of_relaid hdistinct hbelow hfree hrelaid hadvice hle₁
      (fun method hmem hid => writesKept_enter hcreates hmethods hsome hmem hid) hmem hid) henter
  have hdistinct₂ := hmethods₁.of_enterStep (applyEnter_spec hmethods₁ henter).2.1
  have hstep' := keepsNames_applyExit hdistinct₂ (AdviceLocals.create_eq_ok hcreates.locals).2.2.1
    (fun exit hsome method₂ hmem hid => by
      obtain ⟨method₁, hold, hkeeps, hchanged⟩ := exists_of_mem_forall₂ hstep hmem
      rcases hchanged with hchanged | rfl
      · obtain ⟨enter, hplanEnter, henterId⟩ := Option.map_eq_some_iff.1 hchanged.symm
        exact absurd (henterId.trans (hkeeps.1.symm.trans hid)) (hapart enter exit hplanEnter hsome)
      · have hadvice : exit ∈ plan.enter.toList ++ plan.exit.toList := by simp [hsome]
        exact prepared_of_relaid hdistinct hbelow hfree hrelaid hadvice (Nat.le_trans hle₁ hle₂)
          (fun method hmem hid => writesKept_exit hcreates hmethods hsome hmem hid) hold hid) hexit
  have hkeeps : List.Forall₂ KeepsNames decl₁.methods decl'.methods :=
    forall₂_comp (fun _ _ _ hfirst hsecond => hfirst.1.trans hsecond) hstep hstep'
  refine forall₂_comp (fun method method₁ method' hlayout hnames => ?_) hrelaid hkeeps
  obtain ⟨layout, rfl⟩ := hlayout
  exact ⟨hnames.1, hnames.leavesNone⟩

/-- A class whose advice methods share two values and mention a field of an enclosing class. -/
def readingClass : TypeDecl :=
  let shared (id : NodeId) (key name : String) : Param :=
    .single id (.single "Advice.Local" (.expr (.literal ⟨.string, key⟩))) (.primitive .int) name
  classOf 0 "A"
    [.method (methodOf 1 [.marker "Advice.OnMethodEnter"] "enter"
      [shared 2 "\"a\"" "a", shared 3 "\"b\"" "b"]
      (.expr (.assign (.name 4 "a") .assign (.name 5 "limit")))),
    .method (methodOf 6 [.marker "Advice.OnMethodExit"] "exit"
      [shared 7 "\"a\"" "a", shared 8 "\"b\"" "b"]
      (.expr (.assign (.name 9 "b") .assign (.name 10 "a"))))]

/-- The field is all that the migrated methods mention without declaring it. -/
theorem transform?_leavesNone_readingClass :
    let scope := (TypeScope.ofUnit (unitOf [Framework.advice] readingClass) Framework.index).nested
      readingClass
    ∃ plan decl' session', Plan.create readingClass scope = .ok (some plan) ∧
      (plan.transform? readingClass).run ⟨11, [], []⟩ = .ok (some decl', session') ∧
      decl'.methods.map (fun method => ((BodyScopes.ofMethod method).uses.filter
        (·.resolution.isNone)).map (·.name)) = [["limit"], []] ∧
      List.Forall₂ (fun method method' => method'.id = method.id ∧ LeavesNone method method')
        readingClass.methods decl'.methods := by
  intro scope
  have hrun : (Plan.create readingClass scope).toOption.bind (fun found =>
      found.bind fun plan => ((plan.transform? readingClass).run ⟨11, [], []⟩).toOption.bind
        fun result => result.1.map fun decl' =>
          (plan.enter.map (·.id), plan.exit.map (·.id), decl'.methods.map fun method =>
            ((BodyScopes.ofMethod method).uses.filter (·.resolution.isNone)).map (·.name))) =
      some (some 1, some 6, [["limit"], []]) := by
    decide +kernel
  obtain ⟨found, hcreate, hfound⟩ := Option.bind_eq_some_iff.1 hrun
  obtain ⟨plan, hplan, hran⟩ := Option.bind_eq_some_iff.1 hfound
  obtain ⟨⟨result, session'⟩, htransform, hresult⟩ := Option.bind_eq_some_iff.1 hran
  obtain ⟨decl', hsome, heq⟩ := Option.map_eq_some_iff.1 hresult
  obtain ⟨henter, hexit, hnames⟩ : plan.enter.map (·.id) = some 1 ∧ plan.exit.map (·.id) = some 6 ∧
      decl'.methods.map (fun method => ((BodyScopes.ofMethod method).uses.filter
        (·.resolution.isNone)).map (·.name)) = [["limit"], []] := by
    simpa using heq
  have hcreate := hplan ▸ eq_ok_of_toOption hcreate
  have htransform := (show result = some decl' from hsome) ▸ eq_ok_of_toOption htransform
  have hdistinct : Distinct readingClass.mentions := by
    rw [Distinct]
    decide
  refine ⟨plan, decl', session', hcreate, htransform, hnames,
    transform?_leavesNone hdistinct (by decide) hcreate ?_ ?_ htransform⟩
  · intro enter exit hsome hsome'
    rw [hsome, Option.map_some, Option.some_inj] at henter
    rw [hsome', Option.map_some, Option.some_inj] at hexit
    rw [henter, hexit]
    decide
  · intro method hmem _
    have hmethods : readingClass.methods.map (Block.eventsOption ·.body) =
        [[.hold, .open, .effect, .use .write "a" 4, .use .read "limit" 5, .release],
        [.hold, .open, .effect, .use .write "b" 9, .use .read "a" 10, .release]] := by
      decide +kernel
    have hevents := hmethods ▸ List.mem_map_of_mem hmem
    intro name id hbind
    simp only [List.mem_cons, List.not_mem_nil, or_false] at hevents
    rcases hevents with hevents | hevents <;> rw [hevents] at hbind <;> simp at hbind

end AdviceMigration.Advice
