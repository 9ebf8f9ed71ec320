import AdviceMigration.Proofs.Advice.Idempotence
import AdviceMigration.Proofs.Source.Paths

/-!
# What a migration leaves alone

A migration changes the two advice methods of a class and may put a container class in front of the enter method. Every other member stays as it is and where it is, except that classes nested in it are migrated too. The frame of a type follows the recursion of the migration and collects the names of the classes that it changed, nested ones first.
-/

namespace AdviceMigration.Advice

open AdviceMigration.Source AdviceMigration.Scope

/-! ### Members of one class -/

/-- A member before and after edits of the methods with the given identities. -/
inductive Edited (ids : List NodeId) : Member → Member → Prop where
  | same (member : Member) : Edited ids member member
  | method {old new : Method} (hmem : old.id ∈ ids) (hid : new.id = old.id) :
    Edited ids (.method old) (.method new)

namespace Edited

variable {ids : List NodeId}

theorem refl_members (members : List Member) : List.Forall₂ (Edited ids) members members :=
  List.forall₂_same.2 fun member _ => .same member

theorem trans {member member' member'' : Member} (h : Edited ids member member')
    (h' : Edited ids member' member'') : Edited ids member member'' := by
  cases h with
  | same => exact h'
  | method hmem hid =>
    cases h' with
    | same => exact .method hmem hid
    | method _ hid' => exact .method hmem (hid'.trans hid)

theorem type_eq {decl : TypeDecl} {member : Member} (h : Edited ids (.type decl) member) :
    member = .type decl := by
  cases h
  rfl

theorem replace {new : Method} (hnew : new.id ∈ ids) (members : List Member) :
    List.Forall₂ (Edited ids) members (TypeDecl.replaceMethod.replace new members) := by
  induction members with
  | nil => exact .nil
  | cons member rest ih =>
    cases member with
    | method old =>
      rw [TypeDecl.replaceMethod.replace]
      split
      next hid =>
        have hid' : old.id = new.id := eq_of_beq hid
        exact .cons (.method (hid' ▸ hnew) hid'.symm) (refl_members rest)
      next => exact .cons (.same _) ih
    | field decl => exact .cons (.same _) ih
    | type decl => exact .cons (.same _) ih
    | initializer decl => exact .cons (.same _) ih

end Edited

/-- The identities of the methods that a plan is about. -/
def Plan.adviceIds (plan : Plan) : List NodeId :=
  (plan.enter.toList ++ plan.exit.toList).map (·.id)

/-- A class after edits of its advice methods. -/
def EditedClass (plan : Plan) (decl decl' : TypeDecl) : Prop :=
  ∃ members, decl' = { decl with members := members } ∧
    List.Forall₂ (Edited plan.adviceIds) decl.members members

theorem EditedClass.refl (plan : Plan) (decl : TypeDecl) : EditedClass plan decl decl :=
  ⟨decl.members, by cases decl; rfl, Edited.refl_members decl.members⟩

theorem EditedClass.trans {plan : Plan} {decl decl' decl'' : TypeDecl}
    (h : EditedClass plan decl decl') (h' : EditedClass plan decl' decl'') :
    EditedClass plan decl decl'' := by
  obtain ⟨members, rfl, hmembers⟩ := h
  obtain ⟨members', rfl, hmembers'⟩ := h'
  exact ⟨members', rfl, forall₂_comp (fun _ _ _ h h' => h.trans h') hmembers hmembers'⟩

theorem editedClass_replaceMethod {plan : Plan} {decl : TypeDecl} {method method' : Method}
    {advice : AdviceMethod} (hadvice : advice ∈ plan.enter.toList ++ plan.exit.toList)
    (hfind : decl.method? advice.id = some method) (hid : method'.id = method.id) :
    EditedClass plan decl (decl.replaceMethod method') := by
  have hmethod : method.id = advice.id := by simpa using List.find?_some hfind
  refine ⟨_, rfl, Edited.replace ?_ _⟩
  rw [hid, hmethod]
  exact List.mem_map_of_mem hadvice

theorem editedClass_applyEnter {plan : Plan} {decl decl' : TypeDecl} {values : List ValueToReturn}
    {session session' : Session} (hdistinct : DistinctMethods decl.methods)
    (h : (plan.applyEnter decl).run session = .ok ((decl', values), session')) :
    EditedClass plan decl decl' := by
  rcases run_applyEnter h with ⟨-, rfl, rfl⟩ |
    ⟨enter, method, method', henter, hfind, hmigrate, rfl⟩
  · exact .refl plan decl'
  · have hnodup := hdistinct.2 method (List.mem_of_find?_eq_some hfind)
    have hid := (rewritten_migrateEnter hnodup hmigrate).1.id
    exact editedClass_replaceMethod (by simp [henter]) hfind hid

theorem editedClass_applyExit {plan : Plan} {scope : TypeScope} {original decl decl' : TypeDecl}
    {enterPacked : Bool} {session session' : Session} (hreads : plan.Reads scope original)
    (hdistinct : DistinctMethods decl.methods)
    (h : (plan.applyExit decl enterPacked).run session = .ok (decl', session')) :
    EditedClass plan decl decl' := by
  rcases run_applyExit h with ⟨-, rfl, rfl⟩ | ⟨exit, method, method', hexit, hfind, hmigrate, rfl⟩
  · exact .refl plan decl'
  · have hnodup := hdistinct.2 method (List.mem_of_find?_eq_some hfind)
    obtain ⟨extra, hrewritten, -⟩ := rewritten_migrateExit hnodup hreads.length hreads.spelled
      (hreads.marker exit hexit) hmigrate
    exact editedClass_replaceMethod (by simp [hexit]) hfind hrewritten.id

/-! ### The container class -/

/-- The identities of methods and types among members. -/
def memberIds (members : List Member) : List NodeId := members.filterMap Member.id?

/-- Where a member with an identity of its own stands. -/
theorem memberIndex?_eq {decl : TypeDecl} {front back : List Member} {member : Member} {id : NodeId}
    (hnodup : (memberIds decl.members).Nodup) (hmembers : decl.members = front ++ member :: back)
    (hid : member.id? = some id) : decl.memberIndex? id = some front.length := by
  have hfront : front.findIdx? (fun member => member.id? == some id) = none := by
    rw [List.findIdx?_eq_none_iff]
    intro other hother
    refine beq_eq_false_iff_ne.2 fun heq => ?_
    rw [memberIds, hmembers, List.filterMap_append, List.filterMap_cons_some hid,
      List.nodup_append] at hnodup
    exact hnodup.2.2 id (List.mem_filterMap.2 ⟨other, hother, heq⟩) id List.mem_cons_self rfl
  rw [TypeDecl.memberIndex?, hmembers, List.findIdx?_append, hfront, Option.none_or,
    List.findIdx?_cons, hid]
  simp

/-- Without an enter method at most one value is handed over. -/
theorem exists_enter_of_needsContainer {plan : Plan} {decl : TypeDecl} {scope : TypeScope}
    (h : plan.Creates decl scope) (hneeds : plan.locals.needsContainer = true) :
    ∃ enter, plan.enter = some enter := by
  cases henter : plan.enter with
  | some enter => exact ⟨enter, rfl⟩
  | none =>
    have hlocals := h.locals
    rw [henter] at hlocals
    have hnone : plan.locals.enter = [] := (AdviceLocals.create_eq_ok hlocals).1
    rw [AdviceLocals.needsContainer, hnone] at hneeds
    split at hneeds <;> simp at hneeds

/-- The members of a class with its container: it stands directly before the enter method. -/
theorem insertContainer_members {plan : Plan} {scope : TypeScope} {decl decl' : TypeDecl}
    {session session' : Session} (hcreates : plan.Creates decl scope)
    (hnodup : (memberIds decl.members).Nodup)
    (h : (plan.insertContainer decl).run session = .ok (decl', session')) :
    (plan.locals.needsContainer = false ∧ decl' = decl) ∨
      (plan.locals.needsContainer = true ∧ ∃ enter front method method' back container,
        plan.enter = some enter ∧
        AdviceMethod.Found decl scope Framework.onMethodEnter enter method ∧
        (∃ layout, method' = { method with layout := layout }) ∧
        decl.members = front ++ .method method :: back ∧ IsContainer container ∧
        decl' = { decl with members := front ++ .type container :: .method method' :: back }) := by
  rcases run_insertContainer h with ⟨hneeds, rfl, -⟩ | ⟨hneeds, container, hrun, -, rfl⟩
  · exact .inl ⟨hneeds, rfl⟩
  · refine .inr ⟨hneeds, ?_⟩
    obtain ⟨enter, henter⟩ := exists_enter_of_needsContainer hcreates hneeds
    obtain ⟨method, hfound⟩ := AdviceMethod.find?_eq_some (henter ▸ hcreates.enter)
    have hmem := hfound.mem
    rw [TypeDecl.methods_eq, mem_methodsAmong] at hmem
    obtain ⟨front, back, hmembers⟩ := List.append_of_mem hmem
    have hindex := memberIndex?_eq hnodup hmembers (by rw [Member.id?, ← hfound.id])
    have hcontainer := isContainer_container plan.locals session.nextId
    rw [hrun] at hcontainer
    refine ⟨enter, front, method,
      { method with layout := { method.layout with blankLineBefore := true } }, back,
      { container with
        layout := { container.layout with blankLineBefore := decide (0 < front.length) } },
      henter, hfound, ⟨_, rfl⟩, hmembers, ⟨hcontainer.name, hcontainer.members⟩, ?_⟩
    simp only [withContainer, containerIndex, henter, Option.bind_some, hindex, Option.getD_some,
      hmembers, Focus.modify_split, insertIdx_split]
    rfl

/-! ### A changed class -/

/-- Whether a method carries a marker. -/
def IsMarked (scope : TypeScope) (marker : String) (method : Method) : Prop :=
  ∃ annot ∈ method.annotations, scope.resolve? annot.name = some marker

/-- A member of a class before and after the class was changed: only the enter and the exit method may differ. -/
inductive MemberFrame (scope : TypeScope) : Member → Member → Prop where
  | same (member : Member) : MemberFrame scope member member
  | advice {old new : Method} (hid : new.id = old.id)
      (hmarked : IsMarked scope Framework.onMethodEnter old ∨
        IsMarked scope Framework.onMethodExit old) : MemberFrame scope (.method old) (.method new)

/-- A class before and after it was changed, with a container class directly before the enter method if one is needed. -/
inductive ClassFrame (scope : TypeScope) (plan : Plan) (decl : TypeDecl) : TypeDecl → Prop where
  | plain {members : List Member} (hneeds : plan.locals.needsContainer = false)
      (hmembers : List.Forall₂ (MemberFrame scope) decl.members members) :
    ClassFrame scope plan decl { decl with members := members }
  | container {front front' back back' : List Member} {enter enter' : Method} {container : TypeDecl}
      (hneeds : plan.locals.needsContainer = true)
      (hmembers : decl.members = front ++ .method enter :: back)
      (henter : IsMarked scope Framework.onMethodEnter enter)
      (hcontainer : IsContainer container)
      (hfront : List.Forall₂ (MemberFrame scope) front front')
      (hback : List.Forall₂ (MemberFrame scope) back back') (hid : enter'.id = enter.id) :
    ClassFrame scope plan decl
      { decl with members := front' ++ .type container :: .method enter' :: back' }

theorem AdviceMethod.Found.isMarked {decl : TypeDecl} {scope : TypeScope} {marker : String}
    {advice : AdviceMethod} {method : Method} (h : Found decl scope marker advice method) :
    IsMarked scope marker method := by
  obtain ⟨index, hmarked⟩ := h.marked
  obtain ⟨-, hfind⟩ := mem_marked (hmarked ▸ List.mem_singleton_self (method, index))
  exact isSome_findAnnot?.1 (by rw [hfind]; rfl)

/-- A method with the identity of an advice method is marked. -/
theorem isMarked_of_mem_adviceIds {plan : Plan} {decl : TypeDecl} {scope : TypeScope}
    (hcreates : plan.Creates decl scope) (hdistinct : DistinctMethods decl.methods) {method : Method}
    (hmethod : .method method ∈ decl.members) (hid : method.id ∈ plan.adviceIds) :
    IsMarked scope Framework.onMethodEnter method ∨ IsMarked scope Framework.onMethodExit method := by
  have hmem : method ∈ decl.methods := by
    rw [TypeDecl.methods_eq, mem_methodsAmong]
    exact hmethod
  obtain ⟨advice, hadvice, hid⟩ := List.mem_map.1 hid
  rcases List.mem_append.1 hadvice with hadvice | hadvice
  · obtain ⟨other, hfound⟩ := AdviceMethod.find?_eq_some
      (Option.mem_toList.1 hadvice ▸ hcreates.enter)
    exact .inl (hfound.eq_of_id hdistinct.1 hmem hid ▸ hfound.isMarked)
  · obtain ⟨other, hfound⟩ := AdviceMethod.find?_eq_some
      (Option.mem_toList.1 hadvice ▸ hcreates.exit)
    exact .inr (hfound.eq_of_id hdistinct.1 hmem hid ▸ hfound.isMarked)

theorem memberFrame_of_edited {plan : Plan} {decl : TypeDecl} {scope : TypeScope}
    (hcreates : plan.Creates decl scope) (hdistinct : DistinctMethods decl.methods)
    {members members' : List Member} (hsub : members ⊆ decl.members)
    (h : List.Forall₂ (Edited plan.adviceIds) members members') :
    List.Forall₂ (MemberFrame scope) members members' := by
  induction h with
  | nil => exact .nil
  | cons hedited _ ih =>
    obtain ⟨hmember, hrest⟩ := List.cons_subset.1 hsub
    refine .cons ?_ (ih hrest)
    cases hedited with
    | same => exact .same _
    | method hmem hid =>
      exact .advice hid (isMarked_of_mem_adviceIds hcreates hdistinct hmember hmem)

theorem transform?_frame {plan : Plan} {scope : TypeScope} {decl decl' : TypeDecl}
    {session session' : Session} (hreads : plan.Reads scope decl)
    (hdistinct : DistinctMethods decl.methods) (hnodup : (memberIds decl.members).Nodup)
    (h : (plan.transform? decl).run session = .ok (some decl', session')) :
    ClassFrame scope plan decl decl' := by
  rcases run_transform? h with ⟨-, ⟨⟩, -⟩ |
    ⟨decl₁, decl₂, _, values, session₁, session₂, -, hinsert, henter, hexit, ⟨⟩⟩
  obtain ⟨-, hmethods₁, -⟩ := insertContainer_spec hinsert
  have hdistinct₁ := hdistinct.of_sameHead hmethods₁
  obtain ⟨-, hmethods₂, -⟩ := applyEnter_spec hdistinct₁ henter
  have hdistinct₂ := hdistinct₁.of_enterStep hmethods₂
  obtain ⟨members, rfl, hmembers⟩ := (editedClass_applyEnter hdistinct₁ henter).trans
    (editedClass_applyExit hreads hdistinct₂ hexit)
  have hframe : ∀ {old new : List Member}, old ⊆ decl.members →
      List.Forall₂ (Edited plan.adviceIds) old new → List.Forall₂ (MemberFrame scope) old new :=
    memberFrame_of_edited hreads.creates hdistinct
  rcases insertContainer_members hreads.creates hnodup hinsert with ⟨hneeds, rfl⟩ |
    ⟨hneeds, enter, front, method, method', back, container, hplan, hfound, ⟨layout, rfl⟩, hold,
      hcontainer, rfl⟩
  · exact .plain hneeds (hframe (List.Subset.refl _) hmembers)
  · obtain ⟨front', inserted, rest, rfl, hfront, hinserted, hrest⟩ := forall₂_split hmembers
    obtain rfl := hinserted.type_eq
    cases hrest with
    | @cons _ moved _ back' hmoved hback =>
      have hsub : front ⊆ decl.members ∧ back ⊆ decl.members := by
        rw [hold]
        exact ⟨List.subset_append_left _ _, fun _ hmem =>
          List.mem_append_right _ (List.mem_cons_of_mem _ hmem)⟩
      have hframed : ∃ enter', moved = .method enter' ∧ enter'.id = method.id := by
        cases hmoved with
        | same => exact ⟨_, rfl, rfl⟩
        | method _ hid => exact ⟨_, rfl, hid⟩
      obtain ⟨enter', rfl, henter'⟩ := hframed
      exact .container hneeds hold hfound.isMarked hcontainer (hframe hsub.1 hfront)
        (hframe hsub.2 hback) henter'

/-! ### Types and the types in them -/

/-- Whether a plan for a class has changes to make. -/
def Calls (scope : TypeScope) (decl : TypeDecl) (plan : Plan) : Prop :=
  Plan.create decl scope = .ok (some plan) ∧ plan.hasChanges = true

mutual
/-- A type before and after a migration, with the qualified names of the classes that were changed in it. -/
inductive TypeFrame : TypeScope → TypeDecl → List String → TypeDecl → Prop where
  | kept {outer : TypeScope} {decl : TypeDecl} {names : List String} {members : List Member}
      (hmembers : MembersFrame (outer.nested decl) decl.members names members)
      (hkept : ∀ plan, ¬ Calls (outer.nested decl) { decl with members := members } plan) :
    TypeFrame outer decl names { decl with members := members }
  | changed {outer : TypeScope} {decl decl' : TypeDecl} {names : List String} {members : List Member}
      {plan : Plan} (hmembers : MembersFrame (outer.nested decl) decl.members names members)
      (hplan : Calls (outer.nested decl) { decl with members := members } plan)
      (hclass : ClassFrame (outer.nested decl) plan { decl with members := members } decl') :
    TypeFrame outer decl (names ++ [outer.qualify decl.name]) decl'

/-- Members before and after a migration of the types among them. -/
inductive MembersFrame : TypeScope → List Member → List String → List Member → Prop where
  | nil {scope : TypeScope} : MembersFrame scope [] [] []
  | type {scope : TypeScope} {decl decl' : TypeDecl} {names names' : List String}
      {rest rest' : List Member} (hdecl : TypeFrame scope decl names decl')
      (hrest : MembersFrame scope rest names' rest') :
    MembersFrame scope (.type decl :: rest) (names ++ names') (.type decl' :: rest')
  | other {scope : TypeScope} {member : Member} {names : List String} {rest rest' : List Member}
      (hmember : ∀ decl, member ≠ .type decl) (hrest : MembersFrame scope rest names rest') :
    MembersFrame scope (member :: rest) names (member :: rest')
end

/-- Types before and after a migration, in order. -/
inductive TypesFrame (scope : TypeScope) : List TypeDecl → List String → List TypeDecl → Prop where
  | nil : TypesFrame scope [] [] []
  | cons {decl decl' : TypeDecl} {names names' : List String} {rest rest' : List TypeDecl}
      (hdecl : TypeFrame scope decl names decl') (hrest : TypesFrame scope rest names' rest') :
    TypesFrame scope (decl :: rest) (names ++ names') (decl' :: rest')

theorem TypeFrame.head_eq {outer : TypeScope} {decl decl' : TypeDecl} {names : List String}
    (h : TypeFrame outer decl names decl') : decl'.id = decl.id ∧ decl'.name = decl.name := by
  cases h with
  | kept => exact ⟨rfl, rfl⟩
  | changed _ _ hclass => cases hclass <;> exact ⟨rfl, rfl⟩

theorem MembersFrame.memberIds_eq {scope : TypeScope} {members members' : List Member}
    {names : List String} (h : MembersFrame scope members names members') :
    memberIds members' = memberIds members ∧ methodsAmong members' = methodsAmong members := by
  induction members generalizing members' names with
  | nil =>
    cases h
    exact ⟨rfl, rfl⟩
  | cons member rest ih =>
    cases h with
    | @type _ decl decl' _ _ _ rest' hdecl hrest =>
      obtain ⟨hids, hmethods⟩ := ih hrest
      have hid : decl'.id = decl.id := hdecl.head_eq.1
      refine ⟨?_, hmethods⟩
      change decl'.id :: memberIds rest' = decl.id :: memberIds rest
      rw [hid, hids]
    | @other _ _ _ _ rest' hmember hrest =>
      obtain ⟨hids, hmethods⟩ := ih hrest
      constructor
      · rw [memberIds, memberIds, List.filterMap_cons, List.filterMap_cons]
        split
        · exact hids
        · exact congrArg _ hids
      · cases member with
        | method method => exact congrArg (method :: ·) hmethods
        | field _ => exact hmethods
        | type decl => exact absurd rfl (hmember decl)
        | initializer _ => exact hmethods

theorem TypesFrame.map_name_eq {scope : TypeScope} {types types' : List TypeDecl}
    {names : List String} (h : TypesFrame scope types names types') :
    types'.map (·.name) = types.map (·.name) := by
  induction h with
  | nil => rfl
  | cons hdecl _ ih => rw [List.map_cons, List.map_cons, hdecl.head_eq.2, ih]

mutual
/-- A type in which no class was changed is as it was. -/
theorem TypeFrame.eq_of_nil {outer : TypeScope} {decl decl' : TypeDecl} {names : List String} :
    TypeFrame outer decl names decl' → names = [] → decl' = decl
  | .kept hmembers _, hnames => by
    rw [MembersFrame.eq_of_nil hmembers hnames]
    cases decl
    rfl
  | .changed _ _ _, hnames => by simp at hnames

theorem MembersFrame.eq_of_nil {scope : TypeScope} {members members' : List Member}
    {names : List String} : MembersFrame scope members names members' → names = [] →
      members' = members
  | .nil, _ => rfl
  | .type hdecl hrest, hnames => by
    obtain ⟨hnames, hnames'⟩ := List.append_eq_nil_iff.1 hnames
    rw [TypeFrame.eq_of_nil hdecl hnames, MembersFrame.eq_of_nil hrest hnames']
  | .other _ hrest, hnames => by rw [MembersFrame.eq_of_nil hrest hnames]
end

theorem TypesFrame.eq_of_nil {scope : TypeScope} {types types' : List TypeDecl}
    {names : List String} (h : TypesFrame scope types names types') (hnames : names = []) :
    types' = types := by
  induction h with
  | nil => rfl
  | cons hdecl _ ih =>
    obtain ⟨hnames, hnames'⟩ := List.append_eq_nil_iff.1 hnames
    rw [hdecl.eq_of_nil hnames, ih hnames']

/-! ### The recursion of a migration -/

/-- What migrating a class itself does. -/
theorem migrateClass_frame {scope : TypeScope} {decl decl' : TypeDecl} {session session' : Session}
    (hwf : scope.WellFormed) (hdistinct : DistinctMethods decl.methods)
    (hnodup : (memberIds decl.members).Nodup)
    (h : (migrateClass scope decl).run session = .ok (decl', session')) :
    (decl' = decl ∧ session'.classes = session.classes ∧ ∀ plan, ¬ Calls scope decl plan) ∨
      ∃ plan, Calls scope decl plan ∧ ClassFrame scope plan decl decl' ∧
        session'.classes = session.classes ++ [scope.enclosingType?.getD decl.name] := by
  rcases run_migrateClass h with ⟨hplan, rfl, rfl⟩ |
    ⟨plan, result, middle, hplan, htransform, hresult⟩
  · exact .inl ⟨rfl, rfl, fun plan hcalls => nomatch hplan.symm.trans hcalls.1⟩
  · have hreads := (Plan.creates_of_create hplan).reads hdistinct.1 hwf hdistinct.2
    obtain ⟨-, -, hadvances⟩ := transform?_spec hreads hdistinct htransform
    rcases hresult with ⟨hnone, rfl, rfl, rfl, rfl⟩ | ⟨hchanges, rfl, rfl⟩
    · refine .inl ⟨rfl, rfl, fun other hcalls => ?_⟩
      cases hplan.symm.trans hcalls.1
      exact Bool.false_ne_true (hnone.symm.trans hcalls.2)
    · have hclass := transform?_frame hreads hdistinct hnodup htransform
      exact .inr ⟨plan, ⟨hplan, hchanges⟩, hclass, by rw [hadvances.classes]⟩

theorem memberIds_sublist (members : List Member) :
    ((memberIds members).map Mention.decl).Sublist (members.flatMap Member.mentions) := by
  induction members with
  | nil => exact .slnil
  | cons member rest ih =>
    rw [List.flatMap_cons]
    cases member with
    | method method =>
      rw [Member.mentions_method, Method.mentions_eq, List.cons_append]
      exact (ih.trans (List.sublist_append_right _ _)).cons_cons _
    | type decl =>
      rw [Member.mentions_type, TypeDecl.mentions_eq, List.cons_append]
      exact (ih.trans (List.sublist_append_right _ _)).cons_cons _
    | field decl => exact ih.trans (List.sublist_append_right _ _)
    | initializer decl => exact ih.trans (List.sublist_append_right _ _)

theorem nodup_memberIds {decl : TypeDecl} (h : Distinct decl.mentions) :
    (memberIds decl.members).Nodup := by
  have hids := (h.sublist decl.members_mentions).sublist (memberIds_sublist decl.members)
  rwa [Distinct, List.map_map, show Mention.id ∘ Mention.decl = id from rfl, List.map_id] at hids

theorem typeFrame_of_members {outer : TypeScope} (hwf : outer.WellFormed) {decl decl' : TypeDecl}
    {members : List Member} {names : List String} {middle session' : Session}
    (hdistinct : Distinct decl.mentions)
    (hmembers : MembersFrame (outer.nested decl) decl.members names members)
    (h : (migrateClass (outer.nested decl) { decl with members := members }).run middle =
      .ok (decl', session')) :
    ∃ own, TypeFrame outer decl (names ++ own) decl' ∧ session'.classes = middle.classes ++ own := by
  obtain ⟨hids, hmethods⟩ := hmembers.memberIds_eq
  have hdistinctMethods : DistinctMethods ({ decl with members := members } : TypeDecl).methods := by
    rw [TypeDecl.methods_eq, hmethods, ← TypeDecl.methods_eq]
    exact .of_distinct hdistinct
  have hnodup : (memberIds ({ decl with members := members } : TypeDecl).members).Nodup := by
    rw [hids]
    exact nodup_memberIds hdistinct
  rcases migrateClass_frame (hwf.nested decl) hdistinctMethods hnodup h with
    ⟨rfl, hclasses, hkept⟩ | ⟨plan, hplan, hclass, hclasses⟩
  · refine ⟨[], ?_, by rw [hclasses, List.append_nil]⟩
    rw [List.append_nil]
    exact .kept hmembers hkept
  · exact ⟨[outer.qualify decl.name], .changed hmembers hplan hclass, hclasses⟩

theorem membersFrame_of_inTurn {scope : TypeScope} (hwf : scope.WellFormed)
    {members members' : List Member} {session session' : Session}
    (h : InTurn (fun session decl decl' session' => scope.WellFormed → Distinct decl.mentions →
      ∃ names, TypeFrame scope decl names decl' ∧ session'.classes = session.classes ++ names)
      session members members' session')
    (hdistinct : ∀ member ∈ members, Distinct member.mentions) :
    ∃ names, MembersFrame scope members names members' ∧
      session'.classes = session.classes ++ names := by
  induction h with
  | nil => exact ⟨[], .nil, (List.append_nil _).symm⟩
  | type hdecl _ ih =>
    rw [List.forall_mem_cons] at hdistinct
    obtain ⟨names, hframe, hclasses⟩ := hdecl hwf hdistinct.1
    obtain ⟨names', hframe', hclasses'⟩ := ih hdistinct.2
    exact ⟨names ++ names', .type hframe hframe', by rw [hclasses', hclasses, List.append_assoc]⟩
  | other hmember _ ih =>
    obtain ⟨names, hframe, hclasses⟩ := ih (List.forall_mem_cons.1 hdistinct).2
    exact ⟨names, .other hmember hframe, hclasses⟩

theorem rises_frame : Rises fun outer session decl decl' session' =>
    outer.WellFormed → Distinct decl.mentions →
      ∃ names, TypeFrame outer decl names decl' ∧ session'.classes = session.classes ++ names := by
  intro outer decl decl' members session middle session' hmembers h hwf hdistinct
  obtain ⟨names, hframe, hclasses⟩ := membersFrame_of_inTurn (hwf.nested _) hmembers
    fun member hmember => hdistinct.member hmember
  obtain ⟨own, htype, hclasses'⟩ := typeFrame_of_members hwf hdistinct hframe h
  exact ⟨names ++ own, htype, by rw [hclasses', hclasses, List.append_assoc]⟩

theorem migrateType_frame {outer : TypeScope} (hwf : outer.WellFormed) (decl : TypeDecl)
    {decl' : TypeDecl} {session session' : Session} (hdistinct : Distinct decl.mentions)
    (h : (migrateType outer decl).run session = .ok (decl', session')) :
    ∃ names, TypeFrame outer decl names decl' ∧ session'.classes = session.classes ++ names :=
  told_of_migrateType rises_frame decl h hwf hdistinct

theorem migrateTypes_frame {scope : TypeScope} (hwf : scope.WellFormed) {types types' : List TypeDecl}
    {session session' : Session} (hdistinct : ∀ decl ∈ types, Distinct decl.mentions)
    (h : (migrateTypes scope types).run session = .ok (types', session')) :
    ∃ names, TypesFrame scope types names types' ∧ session'.classes = session.classes ++ names := by
  induction types generalizing types' session with
  | nil =>
    obtain ⟨rfl, rfl⟩ := Migrating.run_pure.1 h
    exact ⟨[], .nil, (List.append_nil _).symm⟩
  | cons decl rest ih =>
    rw [List.forall_mem_cons] at hdistinct
    obtain ⟨decl', middle, hdecl, h⟩ := Migrating.run_bind.1 h
    obtain ⟨rest', last, hrest, h⟩ := Migrating.run_bind.1 h
    obtain ⟨rfl, rfl⟩ := Migrating.run_pure.1 h
    obtain ⟨names, hframe, hclasses⟩ := migrateType_frame hwf decl hdistinct.1 hdecl
    obtain ⟨names', hframe', hclasses'⟩ := ih hdistinct.2 hrest
    exact ⟨names ++ names', .cons hframe hframe', by rw [hclasses', hclasses, List.append_assoc]⟩

/-! ### Units -/

theorem hasImport_append (unit : CompilationUnit) (path other : String)
    (header : Option Verbatim) :
    ({ unit with imports := unit.imports ++ [TypeScope.importDecl path], header := header } :
      CompilationUnit).hasImport other = (unit.hasImport other || path == other) := by
  simp [CompilationUnit.hasImport, TypeScope.importDecl]

/-- Added imports are new and distinct, and nothing but imports and the captured header changes. -/
theorem addImports_frame (unit : CompilationUnit) (paths : List String) :
    (∃ header, (addImports unit paths).1 = { unit with
      imports := unit.imports ++ (addImports unit paths).2.map TypeScope.importDecl,
      header := header }) ∧
    (∀ path ∈ (addImports unit paths).2, unit.hasImport path = false) ∧
    (addImports unit paths).2.Nodup := by
  induction paths generalizing unit with
  | nil => exact ⟨⟨unit.header, by simp [addImports]⟩, by simp [addImports], .nil⟩
  | cons path rest ih =>
    rw [addImports]
    split
    next => exact ih unit
    next extended hextended =>
      rw [CompilationUnit.addImport?] at hextended
      split at hextended
      next => cases hextended
      next hnew =>
        cases hextended
        obtain ⟨⟨header, hunit⟩, hadded, hnodup⟩ := ih { unit with
          imports := unit.imports ++ [TypeScope.importDecl path], header := none }
        -- What is added later is neither in the unit nor the import added now.
        have hlater : ∀ other ∈ (addImports { unit with
            imports := unit.imports ++ [TypeScope.importDecl path], header := none } rest).2,
            unit.hasImport other = false ∧ path ≠ other := by
          intro other hother
          have hother' := hadded other hother
          rw [hasImport_append, Bool.or_eq_false_iff] at hother'
          exact ⟨hother'.1, by simpa using hother'.2⟩
        refine ⟨⟨header, hunit.trans (by rw [List.append_assoc]; rfl)⟩, ?_, ?_⟩
        · refine List.forall_mem_cons.2 ⟨Bool.not_eq_true _ ▸ hnew, fun other hother => ?_⟩
          exact (hlater other hother).1
        · exact List.nodup_cons.2 ⟨fun hmem => (hlater path hmem).2 rfl, hnodup⟩

/-- What a migration leaves alone in a unit, with the changed classes and added imports that it reports. -/
structure UnitFrame (unit unit' : CompilationUnit) (report : MigrationReport) : Prop where
  package : unit'.package = unit.package
  endComments : unit'.endComments = unit.endComments
  newline : unit'.newline = unit.newline
  names : unit'.types.map (·.name) = unit.types.map (·.name)
  imports : unit'.imports = unit.imports ++ report.imports.map TypeScope.importDecl
  added : ∀ path ∈ report.imports, unit.hasImport path = false
  distinct : report.imports.Nodup
  types : TypesFrame (TypeScope.ofUnit unit Framework.index) unit.types report.classes unit'.types

theorem migrateUnit_frame {unit : CompilationUnit} (hdistinct : Distinct unit.mentions)
    {nextId : NodeId} {migration : UnitMigration} (h : migrateUnit unit nextId = .ok migration) :
    UnitFrame unit migration.unit migration.report := by
  obtain ⟨⟨types, session⟩, hrun, h⟩ := except_bind_eq_ok.1 h
  obtain ⟨names, hframe, hclasses⟩ := migrateTypes_frame
    (TypeScope.wellFormed_ofUnit unit Framework.index) (fun decl hdecl => hdistinct.of_mem hdecl)
    hrun
  rw [List.nil_append] at hclasses
  obtain ⟨⟨header, hunit⟩, hadded, hnodup⟩ :=
    addImports_frame { unit with types := types } session.imports
  cases h
  rw [← hclasses] at hframe
  dsimp only
  split
  next =>
    rw [hunit]
    exact ⟨rfl, rfl, rfl, hframe.map_name_eq, rfl, hadded, hnodup, hframe⟩
  next hsame =>
    simp only [MigrationReport.isChanged, Bool.or_eq_true, Bool.not_eq_true', not_or,
      Bool.not_eq_false, List.isEmpty_iff] at hsame
    refine ⟨rfl, rfl, rfl, rfl, ?_, hadded, hnodup, hframe.eq_of_nil hsame.1 ▸ hframe⟩
    rw [hsame.2]
    exact (List.append_nil _).symm

/-- A unit with a class that shares two values and, in a class nested in it, one that writes an argument. -/
def sharingUnit : CompilationUnit :=
  let shared (id : NodeId) (key name : String) : Param :=
    .single id (.single "Advice.Local" (.expr (.literal ⟨.string, key⟩))) (.primitive .int) name
  unitOf [Framework.advice] (classOf 0 "Outer"
    [.type (classOf 8 "Plain" [.type (classOf 9 "Inner" [.method (writingEnter 10 [])])]),
    .method (methodOf 1 [.marker "Advice.OnMethodEnter"] "enter"
      [shared 2 "\"a\"" "a", shared 3 "\"b\"" "b"] .empty),
    .method (methodOf 4 [.marker "Advice.OnMethodExit"] "exit"
      [shared 5 "\"a\"" "a", shared 6 "\"b\"" "b"] .empty)])

theorem distinct_sharingUnit : Distinct sharingUnit.mentions := by
  rw [Distinct]
  decide

theorem exists_migrateUnit_sharingUnit : ∃ migration, migrateUnit sharingUnit 13 = .ok migration ∧
    migration.report = ⟨["Outer.Plain.Inner", "Outer"],
      [Framework.assignReturned, Framework.toArgument]⟩ := by
  have hreport : (migrateUnit sharingUnit 13).toOption.map (·.report) =
      some ⟨["Outer.Plain.Inner", "Outer"], [Framework.assignReturned, Framework.toArgument]⟩ := by
    decide +kernel
  obtain ⟨migration, hmigration, hreport⟩ := Option.map_eq_some_iff.1 hreport
  exact ⟨migration, eq_ok_of_toOption hmigration, hreport⟩

theorem migrateUnit_frame_sharingUnit : ∃ migration, migrateUnit sharingUnit 13 = .ok migration ∧
    migration.report = ⟨["Outer.Plain.Inner", "Outer"],
      [Framework.assignReturned, Framework.toArgument]⟩ ∧
    UnitFrame sharingUnit migration.unit migration.report := by
  obtain ⟨migration, h, hreport⟩ := exists_migrateUnit_sharingUnit
  exact ⟨migration, h, hreport, migrateUnit_frame distinct_sharingUnit h⟩

end AdviceMigration.Advice
