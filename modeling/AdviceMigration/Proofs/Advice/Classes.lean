import AdviceMigration.Proofs.Advice.Settled
import AdviceMigration.Proofs.Scope.Reading
import Mathlib.Data.List.InsertIdx

/-!
# Classes that a plan was carried out on

Carrying out a plan changes the two advice methods of a class and may add the container class. The other members stay, in their order.
-/

namespace AdviceMigration.Advice

open AdviceMigration.Source AdviceMigration.Scope

theorem map_eq_of_forall₂ {α β γ : Type} {f : α → γ} {g : β → γ} {as : List α} {bs : List β}
    (h : List.Forall₂ (fun a b => g b = f a) as bs) : bs.map g = as.map f := by
  induction h with
  | nil => rfl
  | cons hab _ ih => rw [List.map_cons, List.map_cons, hab, ih]

/-! ### Members -/

theorem methodsAmong_insertIdx_type (members : List Member) (index : Nat) (decl : TypeDecl) :
    methodsAmong (members.insertIdx index (.type decl)) = methodsAmong members := by
  induction members generalizing index with
  | nil => cases index <;> rfl
  | cons member rest ih =>
    cases index with
    | zero => rfl
    | succ index => cases member <;> simp [methodsAmong, ih]

theorem typesAmong_insertIdx_type (members : List Member) (index : Nat) (decl : TypeDecl)
    {inner : TypeDecl} (h : inner ∈ typesAmong (members.insertIdx index (.type decl))) :
    inner = decl ∨ inner ∈ typesAmong members := by
  rw [mem_typesAmong] at h ⊢
  rcases List.eq_or_mem_of_mem_insertIdx h with heq | hmem
  · exact .inl (Member.type.inj heq)
  · exact .inr hmem

theorem mem_typesAmong_insertIdx (members : List Member) (index : Nat) (member : Member)
    {inner : TypeDecl} (h : inner ∈ typesAmong members) :
    inner ∈ typesAmong (members.insertIdx index member) := by
  rw [mem_typesAmong] at h ⊢
  exact List.subset_insertIdx members index member h

theorem forall₂_sameHead_refl (methods : List Method) : List.Forall₂ SameHead methods methods :=
  List.forall₂_same.2 fun method _ => .refl method

/-- Giving a method an empty line in front changes no head and no type. -/
theorem modify_spaced (members : List Member) (index : Nat) :
    List.Forall₂ SameHead (methodsAmong members) (methodsAmong (members.modify index spaced)) ∧
      typesAmong (members.modify index spaced) = typesAmong members := by
  induction members generalizing index with
  | nil => cases index <;> exact ⟨.nil, rfl⟩
  | cons member rest ih =>
    cases index with
    | zero =>
      rw [List.modify_zero_cons]
      cases member with
      | method method => exact ⟨.cons ⟨rfl, rfl, rfl⟩ (forall₂_sameHead_refl _), rfl⟩
      | field decl => exact ⟨forall₂_sameHead_refl _, rfl⟩
      | type decl => exact ⟨forall₂_sameHead_refl _, rfl⟩
      | initializer decl => exact ⟨forall₂_sameHead_refl _, rfl⟩
    | succ index =>
      obtain ⟨hmethods, htypes⟩ := ih index
      rw [List.modify_succ_cons]
      cases member with
      | method method => exact ⟨.cons (.refl method) hmethods, htypes⟩
      | field decl => exact ⟨hmethods, htypes⟩
      | type decl => exact ⟨hmethods, congrArg (decl :: ·) htypes⟩
      | initializer decl => exact ⟨hmethods, htypes⟩

/-- Whether a type is a container class: it holds fields only. -/
structure IsContainer (decl : TypeDecl) : Prop where
  name : decl.name = containerClass
  members : ∀ member ∈ decl.members, ∃ field, member = .field field

theorem fieldsFor_fields (params : List HandedParam) (next : NodeId) :
    ∀ member ∈ ((AdviceLocals.fieldsFor params).run next).1, ∃ field, member = .field field := by
  induction params generalizing next with
  | nil => exact fun member hmember => nomatch hmember
  | cons param rest ih =>
    intro member hmember
    rcases List.mem_cons.1 hmember with rfl | hmember
    · exact ⟨_, rfl⟩
    · exact ih _ member hmember

theorem isContainer_container (locals : AdviceLocals) (next : NodeId) :
    IsContainer (locals.container.run next).1 :=
  ⟨rfl, fieldsFor_fields _ _⟩

/-- What adding the container class does to a class. -/
structure Extends (decl decl' : TypeDecl) : Prop where
  kind : decl'.kind = decl.kind
  name : decl'.name = decl.name
  types : ∀ inner ∈ typesAmong decl'.members, inner ∈ typesAmong decl.members ∨ IsContainer inner
  kept : ∀ inner ∈ typesAmong decl.members, inner ∈ typesAmong decl'.members

namespace Extends

theorem of_types {decl decl' : TypeDecl} (hkind : decl'.kind = decl.kind)
    (hname : decl'.name = decl.name) (htypes : typesAmong decl'.members = typesAmong decl.members) :
    Extends decl decl' :=
  ⟨hkind, hname, fun _ hinner => .inl (htypes ▸ hinner), fun _ hinner => htypes ▸ hinner⟩

theorem refl (decl : TypeDecl) : Extends decl decl := .of_types rfl rfl rfl

theorem trans {decl decl' decl'' : TypeDecl} (h : Extends decl decl') (h' : Extends decl' decl'') :
    Extends decl decl'' where
  kind := h'.kind.trans h.kind
  name := h'.name.trans h.name
  types := fun inner hinner => (h'.types inner hinner).elim (h.types inner) .inr
  kept := fun inner hinner => h'.kept inner (h.kept inner hinner)

/-- Apart from the container class, the member types have the same names as before. -/
theorem contains_memberTypes {decl decl' : TypeDecl} (h : Extends decl decl') {name : String}
    (hname : name ≠ containerClass) :
    (decl'.memberTypes.map (·.name)).contains name =
      (decl.memberTypes.map (·.name)).contains name := by
  rw [Bool.eq_iff_iff, List.contains_iff_mem, List.contains_iff_mem, List.mem_map, List.mem_map,
    TypeDecl.memberTypes_eq, TypeDecl.memberTypes_eq]
  constructor
  · rintro ⟨inner, hinner, rfl⟩
    exact ⟨inner, (h.types inner hinner).resolve_right fun hcontainer => hname hcontainer.name, rfl⟩
  · rintro ⟨inner, hinner, rfl⟩
    exact ⟨inner, h.kept inner hinner, rfl⟩

end Extends

theorem insertContainer_spec {plan : Plan} {decl decl' : TypeDecl} {session session' : Session}
    (h : (plan.insertContainer decl).run session = .ok (decl', session')) :
    Extends decl decl' ∧ List.Forall₂ SameHead decl.methods decl'.methods ∧
      Advances session session' := by
  rcases run_insertContainer h with ⟨-, rfl, rfl⟩ | ⟨-, container, hrun, hsession, rfl⟩
  · exact ⟨.refl _, forall₂_sameHead_refl _, .refl _⟩
  · have hiscontainer : IsContainer container := by
      have hcontainer := isContainer_container plan.locals session.nextId
      rwa [hrun] at hcontainer
    obtain ⟨hmethods, htypes⟩ := modify_spaced decl.members (containerIndex plan decl)
    refine ⟨⟨rfl, rfl, fun inner hinner => ?_, fun inner hinner => ?_⟩, ?_,
      .of_eq (by rw [hsession]) (by rw [hsession])⟩
    · rcases typesAmong_insertIdx_type _ _ _ hinner with rfl | hinner
      · exact .inr ⟨hiscontainer.name, hiscontainer.members⟩
      · exact .inl (htypes ▸ hinner)
    · exact mem_typesAmong_insertIdx _ _ _ (htypes ▸ hinner)
    · rw [TypeDecl.methods_eq, TypeDecl.methods_eq, withContainer, methodsAmong_insertIdx_type]
      exact hmethods

/-! ### Replacing a method -/

theorem typesAmong_replace (method : Method) (members : List Member) :
    typesAmong (TypeDecl.replaceMethod.replace method members) = typesAmong members := by
  induction members with
  | nil => rfl
  | cons member rest ih =>
    cases member with
    | method old =>
      rw [TypeDecl.replaceMethod.replace]
      split
      · rfl
      · exact ih
    | field decl => exact ih
    | type decl => exact congrArg (decl :: ·) ih
    | initializer decl => exact ih

/-- With distinct identities, exactly the method of a given identity is replaced. -/
theorem methodsAmong_replace {method method' : Method} (hid : method'.id = method.id)
    {members : List Member} (hnodup : ((methodsAmong members).map (·.id)).Nodup)
    (hfind : (methodsAmong members).find? (fun other => other.id == method.id) = some method) :
    List.Forall₂ (fun old new => (old = method ∧ new = method') ∨ (old.id ≠ method.id ∧ new = old))
      (methodsAmong members) (methodsAmong (TypeDecl.replaceMethod.replace method' members)) := by
  induction members with
  | nil => exact .nil
  | cons member rest ih =>
    cases member with
    | method old =>
      rw [methodsAmong, List.map_cons, List.nodup_cons] at hnodup
      rw [TypeDecl.replaceMethod.replace, hid]
      by_cases hold : old.id = method.id
      · rw [methodsAmong, List.find?_cons_of_pos (by simpa using hold), Option.some_inj] at hfind
        rw [if_pos (by simpa using hold)]
        refine .cons (.inl ⟨hfind, rfl⟩) (List.forall₂_same.2 fun other hother => .inr ⟨?_, rfl⟩)
        exact fun heq => hnodup.1 (hold.trans heq.symm ▸ List.mem_map_of_mem hother)
      · rw [methodsAmong, List.find?_cons_of_neg (by simpa using hold)] at hfind
        rw [if_neg (by simpa using hold)]
        exact .cons (.inr ⟨hold, rfl⟩) (ih hnodup.2 hfind)
    | field decl => exact ih hnodup hfind
    | type decl => exact ih hnodup hfind
    | initializer decl => exact ih hnodup hfind

/-- Whether the identities of methods, and those of the parameters of each, are distinct. -/
def DistinctMethods (methods : List Method) : Prop :=
  (methods.map (·.id)).Nodup ∧ ∀ method ∈ methods, (method.params.map (·.id)).Nodup

theorem DistinctMethods.of_distinct {decl : TypeDecl} (h : Distinct decl.mentions) :
    DistinctMethods decl.methods := by
  refine ⟨h.methods, fun method hmethod => ?_⟩
  rw [TypeDecl.methods_eq, mem_methodsAmong] at hmethod
  exact Distinct.params (h.member hmethod)

theorem DistinctMethods.of_forall₂ {methods methods' : List Method} {R : Method → Method → Prop}
    (h : DistinctMethods methods) (hmethods : List.Forall₂ R methods methods')
    (hid : ∀ method method', R method method' → method'.id = method.id)
    (hparams : ∀ method method', R method method' → (method.params.map (·.id)).Nodup →
      (method'.params.map (·.id)).Nodup) : DistinctMethods methods' := by
  constructor
  · rw [map_eq_of_forall₂ (hmethods.imp hid)]
    exact h.1
  · intro method' hmem
    obtain ⟨index, hlt, rfl⟩ := List.mem_iff_getElem.1 hmem
    obtain ⟨hlength, hall⟩ := List.forall₂_iff_get.1 hmethods
    exact hparams _ _ (hall index (hlength ▸ hlt) hlt) (h.2 _ (List.getElem_mem (hlength ▸ hlt)))

theorem DistinctMethods.of_sameHead {methods methods' : List Method} (h : DistinctMethods methods)
    (hmethods : List.Forall₂ SameHead methods methods') : DistinctMethods methods' :=
  h.of_forall₂ hmethods (fun _ _ hhead => hhead.id) fun _ _ hhead hnodup => hhead.params ▸ hnodup

/-- What a step does to one method of a class, the others being as they were. -/
theorem replaceMethod_spec {decl : TypeDecl} {method method' : Method} {id : NodeId}
    (hdistinct : DistinctMethods decl.methods) (hfind : decl.method? id = some method)
    (hid : method'.id = method.id) :
    Extends decl (decl.replaceMethod method') ∧
      List.Forall₂ (fun old new => (old = method ∧ new = method') ∨ (old.id ≠ id ∧ new = old))
        decl.methods (decl.replaceMethod method').methods := by
  have hmethod : method.id = id := by simpa using List.find?_some hfind
  subst hmethod
  refine ⟨.of_types rfl rfl (typesAmong_replace method' decl.members), ?_⟩
  rw [TypeDecl.method?, TypeDecl.methods_eq] at hfind
  rw [TypeDecl.methods_eq, TypeDecl.methods_eq]
  exact methodsAmong_replace hid (TypeDecl.methods_eq decl ▸ hdistinct.1) hfind

/-! ### The two steps -/

/-- What carrying out a plan does to a method as the enter method. -/
def EnterStep (plan : Plan) (method method' : Method) : Prop :=
  ∃ removed writes, Rewritten removed writes [] method method' ∧
    ∀ enter, plan.enter = some enter → enter.id = method.id →
      (∀ param ∈ plan.locals.enter.map (·.2.param), param ∈ removed) ∧
      ∀ binding ∈ plan.enterWrites, binding ∈ writes

/-- What carrying out a plan does to a method as the exit method. -/
def ExitStep (plan : Plan) (method method' : Method) : Prop :=
  ∃ removed writes extra, Rewritten removed writes extra method method' ∧
    extra.length ≤ 1 ∧ (∀ param ∈ extra, Receives param) ∧
    (plan.locals.isNonempty = false → extra = []) ∧
    ∀ exit, plan.exit = some exit → exit.id = method.id →
      (∀ param ∈ plan.locals.exitParams, param ∈ removed) ∧
      ∀ binding ∈ plan.exitWrites, binding ∈ writes

theorem applyEnter_spec {plan : Plan} {decl decl' : TypeDecl} {values : List ValueToReturn}
    {session session' : Session} (hdistinct : DistinctMethods decl.methods)
    (h : (plan.applyEnter decl).run session = .ok ((decl', values), session')) :
    Extends decl decl' ∧ List.Forall₂ (EnterStep plan) decl.methods decl'.methods ∧
      Advances session session' := by
  have hkeep : ∀ method, (∀ enter, plan.enter = some enter → enter.id ≠ method.id) →
      EnterStep plan method method :=
    fun method hother => ⟨[], [], .refl method, fun enter henter hid =>
      absurd hid (hother enter henter)⟩
  rcases run_applyEnter h with ⟨hmissing, rfl, rfl⟩ |
    ⟨enter, method, method', henter, hfind, hmigrate, rfl⟩
  · refine ⟨.refl _, List.forall₂_same.2 fun method hmem => hkeep method ?_, .refl _⟩
    intro enter henter hid
    exact List.find?_eq_none.1 (hmissing enter henter) method hmem (by simp [hid])
  · have hnodup := hdistinct.2 method (List.mem_of_find?_eq_some hfind)
    obtain ⟨hrewritten, hadvances⟩ := rewritten_migrateEnter hnodup hmigrate
    obtain ⟨hextends, hmethods⟩ := replaceMethod_spec hdistinct hfind hrewritten.id
    refine ⟨hextends, hmethods.imp ?_, hadvances⟩
    rintro old new (⟨rfl, rfl⟩ | ⟨hne, rfl⟩)
    · exact ⟨_, _, hrewritten, fun _ _ _ => ⟨fun _ hparam => hparam, fun _ hmem => hmem⟩⟩
    · refine hkeep new fun enter' henter' => ?_
      rw [henter, Option.some_inj] at henter'
      exact henter' ▸ hne.symm

theorem applyExit_spec {plan : Plan} {scope : TypeScope} {original decl decl' : TypeDecl}
    {enterPacked : Bool} {session session' : Session} (hreads : plan.Reads scope original)
    (hdistinct : DistinctMethods decl.methods)
    (h : (plan.applyExit decl enterPacked).run session = .ok (decl', session')) :
    Extends decl decl' ∧ List.Forall₂ (ExitStep plan) decl.methods decl'.methods ∧
      Advances session session' := by
  have hkeep : ∀ method, (∀ exit, plan.exit = some exit → exit.id ≠ method.id) →
      ExitStep plan method method :=
    fun method hother => ⟨[], [], [], .refl method, by simp, by simp, fun _ => rfl,
      fun exit hexit hid => absurd hid (hother exit hexit)⟩
  rcases run_applyExit h with ⟨hmissing, rfl, rfl⟩ |
    ⟨exit, method, method', hexit, hfind, hmigrate, rfl⟩
  · refine ⟨.refl _, List.forall₂_same.2 fun method hmem => hkeep method ?_, .refl _⟩
    intro exit hexit hid
    exact List.find?_eq_none.1 (hmissing exit hexit) method hmem (by simp [hid])
  · have hnodup := hdistinct.2 method (List.mem_of_find?_eq_some hfind)
    obtain ⟨extra, hrewritten, hlength, hreceives, hempty, hadvances⟩ :=
      rewritten_migrateExit hnodup hreads.length hreads.spelled (hreads.marker exit hexit) hmigrate
    obtain ⟨hextends, hmethods⟩ := replaceMethod_spec hdistinct hfind hrewritten.id
    refine ⟨hextends, hmethods.imp ?_, hadvances⟩
    rintro old new (⟨rfl, rfl⟩ | ⟨hne, rfl⟩)
    · exact ⟨_, _, extra, hrewritten, hlength, hreceives, hempty,
        fun _ _ _ => ⟨fun _ hparam => hparam, fun _ hmem => hmem⟩⟩
    · refine hkeep new fun exit' hexit' => ?_
      rw [hexit, Option.some_inj] at hexit'
      exact hexit' ▸ hne.symm

/-! ### Carrying out a plan -/

theorem cleaned_append (writes writes' : List Binding) (param : Param) :
    cleaned (writes ++ writes') param = cleaned writes' (cleaned writes param) :=
  List.foldl_append

/-- One rewriting after another. -/
theorem Rewritten.trans {removed removed' : List NodeId} {writes writes' : List Binding}
    {extra : List Param} {method method' method'' : Method}
    (h : Rewritten removed writes [] method method')
    (h' : Rewritten removed' writes' extra method' method'') :
    Rewritten (removed ++ removed') (writes ++ writes') extra method method'' where
  id := h'.id.trans h.id
  annotations := h.annotations.trans h'.annotations
  params := by
    refine h'.params.trans (List.Sublist.append ?_ (.refl _))
    have hsub := h.params
    rw [List.append_nil] at hsub
    have heq : ((((method.params.filter fun param => !removed.contains param.id).map
        (cleaned writes)).filter fun param => !removed'.contains param.id).map (cleaned writes')) =
        (method.params.filter fun param => !(removed ++ removed').contains param.id).map
          (cleaned (writes ++ writes')) := by
      rw [List.filter_map, List.map_map, List.filter_filter]
      congr 1
      · exact funext fun param => (cleaned_append writes writes' param).symm
      · congr 1
        funext param
        simp [cleaned_id, Bool.and_comm]
    exact heq ▸ (hsub.filter _).map (cleaned writes')

theorem Rewritten.nodup {removed : List NodeId} {writes : List Binding} {method method' : Method}
    (h : Rewritten removed writes [] method method') (hnodup : (method.params.map (·.id)).Nodup) :
    (method'.params.map (·.id)).Nodup := by
  have hsub := h.params.map (·.id)
  rw [List.append_nil, List.map_map] at hsub
  have hids : ((·.id) ∘ cleaned writes) = fun param => param.id := funext (cleaned_id writes)
  rw [hids] at hsub
  exact (hnodup.sublist (List.filter_sublist.map _)).sublist hsub

theorem DistinctMethods.of_enterStep {plan : Plan} {methods methods' : List Method}
    (h : DistinctMethods methods) (hmethods : List.Forall₂ (EnterStep plan) methods methods') :
    DistinctMethods methods' := by
  apply h.of_forall₂ hmethods
  · rintro method method' ⟨removed, writes, hrewritten, -⟩
    exact hrewritten.id
  · rintro method method' ⟨removed, writes, hrewritten, -⟩ hnodup
    exact hrewritten.nodup hnodup

theorem carried_of_steps {plan : Plan} {method moved entered method' : Method}
    (hmoved : SameHead method moved) (henter : EnterStep plan moved entered)
    (hexit : ExitStep plan entered method') : Carried plan method method' := by
  obtain ⟨removed, writes, hrewritten, hsuits⟩ := henter
  obtain ⟨removed', writes', extra, hrewritten', hlength, hreceives, hempty, hsuits'⟩ := hexit
  have hid : entered.id = moved.id := hrewritten.id
  have htrans := hrewritten.trans hrewritten'
  refine ⟨removed ++ removed', writes ++ writes', extra, ⟨?_, ?_, ?_⟩, ?_⟩
  · exact htrans.id.trans hmoved.id
  · exact hmoved.annotations ▸ htrans.annotations
  · exact hmoved.params ▸ htrans.params
  · rw [← hmoved.id]
    refine ⟨hreceives, hlength, hempty, fun enter hplan heq param hparam => ?_,
      fun enter hplan heq binding hbinding => ?_, fun exit hplan heq param hparam => ?_,
      fun exit hplan heq => .inr fun enter henter => ?_,
      fun exit hplan heq binding hbinding => ?_⟩
    · exact List.mem_append_left _ ((hsuits enter hplan heq).1 param hparam)
    · exact List.mem_append_left _ ((hsuits enter hplan heq).2 binding hbinding)
    · refine List.mem_append_right _ ((hsuits' exit hplan (heq.trans hid.symm)).1 param ?_)
      exact List.mem_append_left _ hparam
    · refine List.mem_append_right _ ((hsuits' exit hplan (heq.trans hid.symm)).1 _ ?_)
      refine List.mem_append_right _ ?_
      simp [henter]
    · exact List.mem_append_right _ ((hsuits' exit hplan (heq.trans hid.symm)).2 binding hbinding)

/-- What carrying out a plan does to its class. -/
theorem transform?_spec {plan : Plan} {scope : TypeScope} {decl : TypeDecl}
    {result : Option TypeDecl} {session session' : Session} (hreads : plan.Reads scope decl)
    (hdistinct : DistinctMethods decl.methods)
    (h : (plan.transform? decl).run session = .ok (result, session')) :
    Extends decl (result.getD decl) ∧
      List.Forall₂ (Carried plan) decl.methods (result.getD decl).methods ∧
      Advances session session' := by
  rcases run_transform? h with ⟨hchanges, rfl, rfl⟩ |
    ⟨decl₁, decl₂, decl₃, values, session₁, session₂, -, hinsert, henter, hexit, rfl⟩
  · refine ⟨.refl _, List.forall₂_same.2 fun method _ => ?_, .refl _⟩
    exact carried_of_not_hasChanges hreads hchanges method
  · obtain ⟨hextends₁, hmethods₁, hadvances₁⟩ := insertContainer_spec hinsert
    have hdistinct₁ := hdistinct.of_sameHead hmethods₁
    obtain ⟨hextends₂, hmethods₂, hadvances₂⟩ := applyEnter_spec hdistinct₁ henter
    have hdistinct₂ := hdistinct₁.of_enterStep hmethods₂
    obtain ⟨hextends₃, hmethods₃, hadvances₃⟩ := applyExit_spec hreads hdistinct₂ hexit
    refine ⟨hextends₁.trans (hextends₂.trans hextends₃), ?_,
      hadvances₁.trans (hadvances₂.trans hadvances₃)⟩
    have hsteps : List.Forall₂
        (fun moved method' => ∃ entered, EnterStep plan moved entered ∧
          ExitStep plan entered method')
        decl₁.methods decl₃.methods :=
      forall₂_comp (fun _ entered _ henter hexit => ⟨entered, henter, hexit⟩) hmethods₂ hmethods₃
    refine forall₂_comp (fun method moved method' hmoved hsteps => ?_) hmethods₁ hsteps
    obtain ⟨entered, henter, hexit⟩ := hsteps
    exact carried_of_steps hmoved henter hexit

end AdviceMigration.Advice
