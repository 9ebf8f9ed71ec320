import AdviceMigration.Proofs.Advice.Frames
import AdviceMigration.Proofs.Advice.Heads
import AdviceMigration.Proofs.Advice.Issuing
import AdviceMigration.Proofs.Source.Characters

/-!
# Distinct identities

Names are looked up by identity, so two declarations or names with one identity would be taken for each other. The identities of a unit that has been read are distinct, and they stay so whatever edits follow: each of them keeps, moves or drops the identities it finds and draws the others from the supply.
-/

namespace AdviceMigration.Source

/-- The identities of the declarations and names of a unit. -/
def CompilationUnit.ids (unit : CompilationUnit) : List NodeId := unit.types.flatMap TypeDecl.ids

end AdviceMigration.Source

namespace AdviceMigration.Advice

open AdviceMigration.Source AdviceMigration.Scope

/-! ### Steps of a migration -/

namespace Migrating

variable {α β : Type} {held : List NodeId} {ids : α → List NodeId} {ids' : β → List NodeId}
  {step : Migrating α} {next : α → Migrating β}

/-- Whether a step that succeeds makes the identities of its result out of those held before. -/
def Redraws (held : List NodeId) (step : Migrating α) (ids : α → List NodeId) : Prop :=
  ∀ session value session', step.run session = .ok (value, session') →
    Redrawn held session.nextId (ids value) session'.nextId

theorem Redraws.pure {value : α} (h : ∀ id : Nat, (ids value).count id ≤ held.count id) :
    Redraws held (pure value) ids := by
  intro session value session' hrun
  obtain ⟨rfl, rfl⟩ := run_pure.1 hrun
  exact .of_count_le h

theorem Redraws.andThen (h : Redraws held step ids)
    (hnext : ∀ value, Redraws (ids value) (next value) ids') : Redraws held (step >>= next) ids' := by
  intro session value session' hrun
  obtain ⟨middle, session'', hstep, hnext'⟩ := run_bind.1 hrun
  exact (h _ _ _ hstep).trans (hnext middle _ _ _ hnext')

theorem Redraws.frame (h : Redraws held step ids) (others : List NodeId) :
    Redraws (others ++ held) step fun value => others ++ ids value :=
  fun session value session' hrun => (h session value session' hrun).frame others

/-- A step after one that holds nothing of its own. -/
theorem Redraws.bind (h : Redraws [] step ids)
    (hnext : ∀ value, Redraws (held ++ ids value) (next value) ids') :
    Redraws held (step >>= next) ids' := by
  have hframe := h.frame held
  rw [List.append_nil] at hframe
  exact hframe.andThen hnext

/-- Two steps that build the first and the other items of a list. -/
theorem Redraws.cons {γ : Type} {first : Migrating α} {rest : Migrating (List γ)}
    {held held' : List NodeId} {item : α → γ} {itemIds : γ → List NodeId}
    (hfirst : Redraws held first fun value => itemIds (item value))
    (hrest : Redraws held' rest fun items => items.flatMap itemIds) :
    Redraws (held ++ held') (do
      let value ← first
      return item value :: (← rest)) fun items => items.flatMap itemIds := by
  intro session items session' hrun
  obtain ⟨value, middle, hvalue, hrun⟩ := run_bind.1 hrun
  obtain ⟨others, last, hothers, hrun⟩ := run_bind.1 hrun
  obtain ⟨rfl, rfl⟩ := run_pure.1 hrun
  change Redrawn _ _ (itemIds (item value) ++ others.flatMap itemIds) _
  exact ((hfirst _ _ _ hvalue).frameRight held').trans ((hrest _ _ _ hothers).frame _)

theorem redraws_drawing {make : Fresh α} (h : Fresh.Keeps held make ids) :
    Redraws held (drawing make) ids := by
  intro session value session' hrun
  have hmake := h session.nextId
  rwa [(run_drawing.1 hrun).1] at hmake

theorem redraws_editing {edit : Fresh (Method × Except MigrateError α)}
    (h : Fresh.Keeps held edit fun result => result.1.ids) :
    Redraws held (editing edit) fun result => result.1.ids := by
  rintro session ⟨method, value⟩ session' hrun
  have hedit := h session.nextId
  rwa [(run_editing.1 hrun).1] at hedit

theorem redraws_modify {change : Session → Session}
    (h : ∀ session, (change session).nextId = session.nextId) :
    Redraws [] (modify change) fun _ => [] := by
  intro session value session' hrun
  rw [← run_modify.1 hrun, h]
  exact .refl [] _

theorem redraws_liftM {result : Except MigrateError α} :
    Redraws [] (liftM result) fun _ => [] := by
  intro session value session' hrun
  rw [(run_liftM.1 hrun).2]
  exact .refl [] _

end Migrating

open Migrating

/-! ### One method -/

theorem ids_annotate (method : Method) (values : List ValueToReturn) (marker : Nat) :
    (annotate method values marker).ids = method.ids := by
  rw [Method.ids_eq, Method.ids_eq]
  rfl

theorem ids_foldl_dropReadOnly (writes : List Binding) (method : Method) :
    (writes.foldl dropReadOnly method).ids = method.ids := by
  induction writes generalizing method with
  | nil => rfl
  | cons binding rest ih =>
    rw [List.foldl_cons, ih, Method.ids_eq, Method.ids_eq, dropReadOnly, List.map_map]
    have hparam : ∀ param : Param, ((·.id) ∘ fun param : Param =>
        if param.id == binding.param then
          { param with
            annotations := param.annotations.modify binding.annotIndex fun annot =>
              annot.without "readOnly" }
        else param) param = param.id := by
      intro param
      dsimp only [Function.comp]
      split <;> rfl
    rw [List.map_congr_left fun param _ => hparam param]

theorem redraws_finishMethod (method : Method) (marker : Nat) (values : List ValueToReturn) :
    Redraws method.ids (finishMethod method marker values) Method.ids := by
  unfold finishMethod
  split
  · exact .pure fun _ => Nat.le_refl _
  · refine .bind (redraws_modify fun _ => rfl) fun _ => ?_
    rw [List.append_nil, ← ids_annotate method values marker]
    exact .andThen (redraws_editing (keeps_packReturns _ values)) fun packed =>
      .pure fun id => count_foldReturns packed.1 _ id

theorem redraws_enterAnnot (markerName : String) :
    Redraws [] (enterAnnot markerName) fun _ => [] := by
  unfold enterAnnot
  dsimp only
  split
  · split
    · exact .andThen (redraws_modify fun _ => rfl) fun _ => .pure fun _ => Nat.le_refl _
    · exact .pure fun _ => Nat.le_refl _
  · exact .andThen (redraws_modify fun _ => rfl) fun _ => .pure fun _ => Nat.le_refl _

namespace Plan

theorem redraws_exitAnnot (plan : Plan) (exit : AdviceMethod) :
    Redraws [] (plan.exitAnnot exit) fun _ => [] := by
  unfold exitAnnot
  split
  · exact .pure fun _ => Nat.le_refl _
  · exact redraws_enterAnnot _

theorem redraws_migrateEnter (plan : Plan) (enter : AdviceMethod) (method : Method) :
    Redraws method.ids (plan.migrateEnter enter method) fun result => result.1.ids := by
  have hfinish : ∀ (moved : Method) (values : List ValueToReturn), Redraws moved.ids
      (finishMethod (plan.enterWrites.foldl dropReadOnly moved) enter.marker values >>=
        fun finished => pure ((values.map (·.decl)).foldl prune finished, values))
      fun result => result.1.ids := by
    intro moved values
    rw [← ids_foldl_dropReadOnly plan.enterWrites moved]
    exact .andThen (redraws_finishMethod _ _ _) fun finished =>
      .pure fun id => count_foldl_prune finished _ id
  unfold migrateEnter
  split
  · exact .andThen (redraws_editing (plan.locals.keeps_transformEnter method)) fun moved =>
      hfinish moved.1 _
  · exact hfinish method _

theorem redraws_migrateExit (plan : Plan) (exit : AdviceMethod) (method : Method)
    (enterPacked : Bool) :
    Redraws method.ids (plan.migrateExit exit method enterPacked) Method.ids := by
  have hfinish : ∀ (moved : Method) (values : List ValueToReturn) (decls : List NodeId),
      Redraws moved.ids
        (finishMethod (plan.exitWrites.foldl dropReadOnly moved) exit.marker values >>=
          fun finished => pure (decls.foldl prune finished)) Method.ids := by
    intro moved values decls
    rw [← ids_foldl_dropReadOnly plan.exitWrites moved]
    exact .andThen (redraws_finishMethod _ _ _) fun finished =>
      .pure fun id => count_foldl_prune finished _ id
  unfold migrateExit
  split
  · refine .bind (plan.redraws_exitAnnot exit) fun annot => ?_
    rw [List.append_nil]
    exact .andThen (redraws_editing (plan.locals.keeps_transformExit method enterPacked annot))
      fun moved => hfinish moved.1 _ _
  · exact hfinish method _ _

/-! ### The identity of a method -/

theorem id_migrateEnter {plan : Plan} {enter : AdviceMethod} {method method' : Method}
    {values : List ValueToReturn} {session session' : Session}
    (h : (plan.migrateEnter enter method).run session = .ok ((method', values), session')) :
    method'.id = method.id := by
  obtain ⟨moved, carrier, next, finished, hmoved, -, hfinish, rfl⟩ := run_migrateEnter h
  have hmovedId : moved.id = method.id := by
    rcases hmoved with ⟨-, hmove⟩ | ⟨-, rfl, -, -⟩
    · exact (sameHead_transformEnter hmove).id.trans (eraseParams_rest method _).1
    · rfl
  rw [(head_foldl_prune _ finished).1, (head_finishMethod hfinish).1,
    (foldl_dropReadOnly_rest _ moved).1, hmovedId]

theorem id_transformExit {locals : AdviceLocals} {method method' : Method} {enterPacked : Bool}
    {annot : Annot} {next next' : NodeId} {change : Option AdviceLocals.ExitChange}
    (h : (locals.transformExit method enterPacked annot).run next =
      ((method', .ok change), next')) : method'.id = method.id := by
  unfold AdviceLocals.transformExit at h
  split at h
  · cases h
    rfl
  · split at h
    · cases h
    · split at h
      · cases h
        rfl
      · simp only [Fresh.run_bind] at h
        cases enterPacked <;> cases h <;>
          exact (eraseParams_rest _ locals.exitParams).1.trans
            (SameHead.readFromCarrier _ _ _ _ _).id

theorem id_migrateExit {plan : Plan} {exit : AdviceMethod} {method method' : Method}
    {enterPacked : Bool} {session session' : Session}
    (h : (plan.migrateExit exit method enterPacked).run session = .ok (method', session')) :
    method'.id = method.id := by
  obtain ⟨moved, change, middle, next, finished, hmoved, hfinish, rfl⟩ := run_migrateExit h
  have hmovedId : moved.id = method.id := by
    rcases hmoved with ⟨-, annot, -, hmove⟩ | ⟨-, rfl, -, -, -⟩
    · exact id_transformExit hmove
    · rfl
  rw [(head_foldl_prune _ finished).1, (head_finishMethod hfinish).1,
    (foldl_dropReadOnly_rest _ moved).1, hmovedId]

end Plan

/-! ### One class -/

theorem count_replace {members : List Member} {method method' : Method} {id : NodeId}
    (hfind : (methodsAmong members).find? (fun other => other.id == id) = some method)
    (hid : method'.id = id) (other : Nat) :
    ((TypeDecl.replaceMethod.replace method' members).flatMap Member.ids).count other +
        method.ids.count other =
      (members.flatMap Member.ids).count other + method'.ids.count other := by
  have hkeep : ∀ (member : Member) (rest : List Member),
      ((TypeDecl.replaceMethod.replace method' rest).flatMap Member.ids).count other +
          method.ids.count other =
        (rest.flatMap Member.ids).count other + method'.ids.count other →
      ((member :: TypeDecl.replaceMethod.replace method' rest).flatMap Member.ids).count other +
          method.ids.count other =
        ((member :: rest).flatMap Member.ids).count other + method'.ids.count other := by
    intro member rest ih
    rw [List.flatMap_cons, List.flatMap_cons, List.count_append, List.count_append]
    omega
  induction members with
  | nil => cases hfind
  | cons member rest ih =>
    cases member with
    | method old =>
      rw [methodsAmong] at hfind
      rw [TypeDecl.replaceMethod.replace, hid]
      by_cases hold : old.id = id
      · rw [List.find?_cons_of_pos (by simpa using hold), Option.some_inj] at hfind
        rw [if_pos (by simpa using hold), List.flatMap_cons, List.flatMap_cons, List.count_append,
          List.count_append, Member.ids_method, Member.ids_method, hfind]
        omega
      · rw [List.find?_cons_of_neg (by simpa using hold)] at hfind
        rw [if_neg (by simpa using hold)]
        exact hkeep _ rest (ih hfind)
    | field decl => exact hkeep _ rest (ih hfind)
    | type decl => exact hkeep _ rest (ih hfind)
    | initializer decl => exact hkeep _ rest (ih hfind)

/-- The method that is put in place of another may use the identities of that one. -/
theorem redrawn_replaceMethod {decl : TypeDecl} {method method' : Method} {id : NodeId}
    {first next : Nat} (hfind : decl.method? id = some method) (hid : method'.id = method.id)
    (h : Redrawn method.ids first method'.ids next) :
    Redrawn decl.ids first (decl.replaceMethod method').ids next := by
  refine ⟨h.le, fun other => ?_⟩
  have hmethod : method.id = id := by simpa using List.find?_some hfind
  rw [TypeDecl.method?, TypeDecl.methods_eq] at hfind
  have hcount := h.count_le other
  have hreplace := count_replace hfind (hid.trans hmethod) other
  rw [TypeDecl.ids_eq, TypeDecl.ids_eq]
  simp only [TypeDecl.replaceMethod, List.count_cons, List.count_append]
  omega

theorem flatMap_modify {change : Member → Member} (h : ∀ member, (change member).ids = member.ids)
    (members : List Member) (index : Nat) :
    (members.modify index change).flatMap Member.ids = members.flatMap Member.ids := by
  induction members generalizing index with
  | nil => rw [List.modify_nil]
  | cons member rest ih =>
    cases index with
    | zero => rw [List.modify_zero_cons, List.flatMap_cons, h, List.flatMap_cons]
    | succ index => rw [List.modify_succ_cons, List.flatMap_cons, ih, List.flatMap_cons]

theorem count_insertIdx (members : List Member) (member : Member) (index id : Nat) :
    ((members.insertIdx index member).flatMap Member.ids).count id ≤
      (members.flatMap Member.ids).count id + member.ids.count id := by
  by_cases hle : index ≤ members.length
  · rw [((List.perm_insertIdx member members hle).flatMap_right Member.ids).count_eq,
      List.flatMap_cons, List.count_append]
    exact Nat.le_of_eq (Nat.add_comm _ _)
  · rw [List.insertIdx_of_length_lt (Nat.lt_of_not_le hle)]
    exact Nat.le_add_right _ _

namespace Plan

theorem redraws_insertContainer (plan : Plan) (decl : TypeDecl) :
    Redraws decl.ids (plan.insertContainer decl) TypeDecl.ids := by
  unfold insertContainer
  split
  · refine .bind (redraws_drawing plan.locals.keeps_container) fun container => .pure fun id => ?_
    rw [TypeDecl.ids_eq, TypeDecl.ids_eq]
    dsimp only
    rw [List.cons_append, List.append_assoc, List.count_cons, List.count_cons, List.count_append,
      List.count_append, List.count_append]
    refine Nat.add_le_add_right (Nat.add_le_add_left ?_ _) _
    refine Nat.le_trans (count_insertIdx _ _ _ id) (Nat.le_of_eq ?_)
    rw [Member.ids_type, TypeDecl.ids_eq container, flatMap_modify]
    · rw [TypeDecl.ids_eq]
    · intro member
      cases member with
      | method method => rw [Member.ids_method, Member.ids_method, Method.ids_eq, Method.ids_eq]
      | _ => rfl
  · exact .pure fun _ => Nat.le_refl _

theorem redraws_applyEnter (plan : Plan) (decl : TypeDecl) :
    Redraws decl.ids (plan.applyEnter decl) fun result => result.1.ids := by
  unfold applyEnter
  split
  next => exact .pure fun _ => Nat.le_refl _
  next enter henter =>
    split
    next => exact .pure fun _ => Nat.le_refl _
    next method hfind =>
      intro session value session' hrun
      obtain ⟨⟨method', values⟩, middle, hmigrate, hrun⟩ := run_bind.1 hrun
      obtain ⟨rfl, rfl⟩ := run_pure.1 hrun
      exact redrawn_replaceMethod hfind (id_migrateEnter hmigrate)
        (plan.redraws_migrateEnter enter method _ _ _ hmigrate)

theorem redraws_applyExit (plan : Plan) (decl : TypeDecl) (enterPacked : Bool) :
    Redraws decl.ids (plan.applyExit decl enterPacked) TypeDecl.ids := by
  unfold applyExit
  split
  next => exact .pure fun _ => Nat.le_refl _
  next exit hexit =>
    split
    next => exact .pure fun _ => Nat.le_refl _
    next method hfind =>
      intro session value session' hrun
      obtain ⟨method', middle, hmigrate, hrun⟩ := run_bind.1 hrun
      obtain ⟨rfl, rfl⟩ := run_pure.1 hrun
      exact redrawn_replaceMethod hfind (id_migrateExit hmigrate)
        (plan.redraws_migrateExit exit method enterPacked _ _ _ hmigrate)

/-- Nothing is drawn for a class that stays as it is. -/
theorem redraws_transform? (plan : Plan) (decl : TypeDecl) :
    Redraws decl.ids (plan.transform? decl) fun changed => (changed.getD decl).ids := by
  unfold transform?
  split
  · exact .andThen (plan.redraws_insertContainer decl) fun extended =>
      .andThen (plan.redraws_applyEnter extended) fun result =>
        .andThen (plan.redraws_applyExit result.1 _) fun changed => .pure fun _ => Nat.le_refl _
  · exact .pure fun _ => Nat.le_refl _

end Plan

theorem redraws_migrateClass (scope : TypeScope) (decl : TypeDecl) :
    Redraws decl.ids (migrateClass scope decl) TypeDecl.ids := by
  unfold migrateClass
  refine .bind redraws_liftM fun plan => ?_
  rw [List.append_nil]
  split
  next => exact .pure fun _ => Nat.le_refl _
  next plan =>
    refine .andThen (plan.redraws_transform? decl) fun result => ?_
    split
    · exact .pure fun _ => Nat.le_refl _
    · refine .bind (redraws_modify fun _ => rfl) fun _ => ?_
      rw [List.append_nil]
      exact .pure fun _ => Nat.le_refl _

/-! ### One unit -/

mutual
theorem redraws_migrateType (outer : TypeScope) :
    (decl : TypeDecl) → Redraws decl.ids (migrateType outer decl) TypeDecl.ids
  | ⟨id, layout, annotations, modifiers, kind, name, typeParams, superTypes, interfaces, constants,
      members, endComments, closing⟩ => by
    rw [migrateType, TypeDecl.ids_eq]
    dsimp only
    rw [← List.cons_append]
    exact .andThen (.frame (redraws_migrateMembers _ members) _) fun migrated => by
      rw [List.cons_append]
      have hclass := redraws_migrateClass (outer.nested ⟨id, layout, annotations, modifiers, kind,
        name, typeParams, superTypes, interfaces, constants, members, endComments, closing⟩)
        ⟨id, layout, annotations, modifiers, kind, name, typeParams, superTypes, interfaces,
          constants, migrated, endComments, closing⟩
      rw [TypeDecl.ids_eq] at hclass
      exact hclass

theorem redraws_migrateMembers (scope : TypeScope) : (members : List Member) →
    Redraws (members.flatMap Member.ids) (migrateMembers scope members)
      fun members => members.flatMap Member.ids
  | [] => .pure fun _ => Nat.le_refl _
  | .type decl :: rest => by
    rw [migrateMembers]
    exact .cons (redraws_migrateType scope decl) (redraws_migrateMembers scope rest)
  | .field decl :: rest => by
    rw [migrateMembers]
    exact .andThen (.frame (redraws_migrateMembers scope rest) decl.ids) fun _ =>
      .pure fun _ => Nat.le_refl _
  | .method decl :: rest => by
    rw [migrateMembers]
    exact .andThen (.frame (redraws_migrateMembers scope rest) decl.ids) fun _ =>
      .pure fun _ => Nat.le_refl _
  | .initializer decl :: rest => by
    rw [migrateMembers]
    exact .andThen (.frame (redraws_migrateMembers scope rest) (Member.initializer decl).ids) fun _ =>
      .pure fun _ => Nat.le_refl _
end

theorem redraws_migrateTypes (scope : TypeScope) (types : List TypeDecl) :
    Redraws (types.flatMap TypeDecl.ids) (migrateTypes scope types)
      fun types => types.flatMap TypeDecl.ids := by
  induction types with
  | nil => exact .pure fun _ => Nat.le_refl _
  | cons decl rest ih =>
    rw [migrateTypes]
    exact .cons (redraws_migrateType scope decl) ih

theorem redrawn_migrateUnit {unit : CompilationUnit} {nextId : NodeId} {migration : UnitMigration}
    (h : migrateUnit unit nextId = .ok migration) :
    Redrawn unit.ids nextId migration.unit.ids migration.nextId := by
  obtain ⟨⟨types, session⟩, hrun, h⟩ := except_bind_eq_ok.1 h
  have htypes := redraws_migrateTypes _ unit.types _ _ _ hrun
  obtain ⟨⟨header, hunit⟩, -, -⟩ := addImports_frame { unit with types := types } session.imports
  cases h
  dsimp only
  split
  · rw [hunit]
    exact htypes
  · exact ⟨htypes.le, fun id => Nat.le_add_right _ _⟩

/-! ### Edits -/

/-- What an edit makes of the identities of the part of a unit that it is given, and of the next identity of the supply. An edit of a method that fails leaves the method as far as the work got. -/
inductive Edit : (ids : List NodeId) → (next : NodeId) → (ids' : List NodeId) → (next' : NodeId) → Prop where
  | replaceReferences (method : Method) (decl : NodeId) (replacement : Expr) (next : NodeId) :
    Edit method.ids next ((Advice.replaceReferences method decl replacement).run next).1.1.ids
      ((Advice.replaceReferences method decl replacement).run next).2
  | insertBefore {body body' : Block} {path : StmtPath} {stmt : Stmt} (next : NodeId) :
    insertBefore? body path stmt = some body' → Edit (body.ids ++ stmt.ids) next body'.ids next
  | removeDeclaration {method method' : Method} {decl : NodeId} (next : NodeId) :
    removeDeclaration? method decl = some method' → Edit method.ids next method'.ids next
  | pruneIfUnused {method method' : Method} {decl : NodeId} (next : NodeId) :
    pruneIfUnused? method decl = some method' → Edit method.ids next method'.ids next
  | packReturns (method : Method) (values : List ValueToReturn) (next : NodeId) :
    Edit method.ids next ((Advice.packReturns method values).run next).1.1.ids
      ((Advice.packReturns method values).run next).2
  | foldReturns (method : Method) (returned : List String) (next : NodeId) :
    Edit method.ids next (Advice.foldReturns method returned).1.ids next
  | transformEnter (locals : AdviceLocals) (method : Method) (next : NodeId) :
    Edit method.ids next ((locals.transformEnter method).run next).1.1.ids
      ((locals.transformEnter method).run next).2
  | transformExit (locals : AdviceLocals) (method : Method) (enterPacked : Bool) (annot : Annot)
      (next : NodeId) :
    Edit method.ids next ((locals.transformExit method enterPacked annot).run next).1.1.ids
      ((locals.transformExit method enterPacked annot).run next).2
  | transform {plan : Plan} {decl : TypeDecl} {changed : Option TypeDecl}
      {session session' : Session} :
    (plan.transform? decl).run session = .ok (changed, session') →
      Edit decl.ids session.nextId (changed.getD decl).ids session'.nextId
  | migrate {unit : CompilationUnit} {nextId : NodeId} {migration : UnitMigration} :
    migrateUnit unit nextId = .ok migration →
      Edit unit.ids nextId migration.unit.ids migration.nextId

theorem Edit.redrawn {ids ids' : List NodeId} {next next' : NodeId} (h : Edit ids next ids' next') :
    Redrawn ids next ids' next' := by
  cases h with
  | replaceReferences method decl replacement => exact keeps_replaceReferences method decl _ next
  | insertBefore _ hinsert =>
    refine .of_count_le fun id => ?_
    rw [List.count_append]
    exact Nat.le_of_eq (count_insertBefore? hinsert id)
  | removeDeclaration _ hremove => exact .of_count_le (count_removeDeclaration? hremove)
  | @pruneIfUnused method method' decl _ hprune =>
    refine .of_count_le fun id => ?_
    have hcount := count_prune method decl id
    rwa [prune, hprune] at hcount
  | packReturns method values => exact keeps_packReturns method values next
  | foldReturns method returned => exact .of_count_le (count_foldReturns method returned)
  | transformEnter locals method => exact locals.keeps_transformEnter method next
  | transformExit locals method enterPacked annot =>
    exact locals.keeps_transformExit method enterPacked annot next
  | transform hrun => exact Plan.redraws_transform? _ _ _ _ _ hrun
  | migrate hrun => exact redrawn_migrateUnit hrun

/-- The identities of a unit that has been read are distinct, and so they are after every edit of a part of the unit, next to those of the rest. -/
theorem issued_read_edit :
    (∀ text first unit next, parseUnit text first = .ok (unit, next) → Issued unit.ids next) ∧
      ∀ ids next ids' next', Edit ids next ids' next' →
        ∀ rest, Issued (rest ++ ids) next → Issued (rest ++ ids') next' := by
  constructor
  · intro text first unit next hread
    obtain ⟨hissued, -⟩ := parseUnit_ids hread
    exact hissued
  · intro ids next ids' next' hedit rest hissued
    exact (hedit.redrawn.frame rest).issued hissued

/-- A class whose enter method writes an argument and shares two values. -/
def handingText : String :=
  "import net.bytebuddy.asm.Advice;\nclass A \x7b\n  @Advice.OnMethodEnter\n  static void enter(" ++
    "@Advice.Argument(value = 0, readOnly = false) int a, @Advice.Local(\"b\") int b, " ++
    "@Advice.Local(\"c\") int c) \x7b\n    a = b;\n  \x7d\n  @Advice.OnMethodExit\n  static void exit(" ++
    "@Advice.Local(\"b\") int b, @Advice.Local(\"c\") int c) \x7b\n    b = c;\n  \x7d\n\x7d\n"

set_option maxRecDepth 2000 in
theorem issued_read_edit_handingText : ∃ unit next migration,
    parseUnit handingText = .ok (unit, next) ∧ migrateUnit unit next = .ok migration ∧
      migration.report.classes = ["A"] ∧ Issued migration.unit.ids migration.nextId := by
  have hrun : ((parseUnit handingText).toOption.bind fun read =>
      (migrateUnit read.1 read.2).toOption.map (·.report.classes)) = some ["A"] := by
    have hchars : handingText.toList = _ := toList_append_eq (toList_append_eq
      (toList_append_eq String.toList_ofList String.toList_ofList) String.toList_ofList)
      String.toList_ofList
    rw [parseUnit_eq_parseChars hchars]
    decide +kernel
  obtain ⟨⟨unit, next⟩, hread, hrun⟩ := Option.bind_eq_some_iff.1 hrun
  obtain ⟨migration, hmigrate, hclasses⟩ := Option.map_eq_some_iff.1 hrun
  have hread := eq_ok_of_toOption hread
  have hmigrate := eq_ok_of_toOption hmigrate
  exact ⟨unit, next, migration, hread, hmigrate, hclasses, issued_read_edit.2 _ _ _ _
    (.migrate hmigrate) [] (issued_read_edit.1 _ _ _ _ hread)⟩

end AdviceMigration.Advice
