import AdviceMigration.Proofs.Source.Visiting

/-!
# Mentions of trees

The declarations and name occurrences of a tree, in the order of the traversal. Those of a tree are those of its parts one after the other, so that distinct identities in a tree are distinct in each part.
-/

namespace AdviceMigration.Source

/-- What a traversal visits, in order. -/
def visitedBy {α : Type} (visitor : Visitor α) : List Mention :=
  ((visitor (StateM (List Mention)) .collect).run []).2.reverse

namespace Traversal

theorem run_visit_collect (mention : Mention) (seen : List Mention) :
    ((collect.visit mention).run seen).2 = mention :: seen := by
  cases mention <;> rfl

theorem run_visitAll_collect (visited seen : List Mention) :
    ((collect.visitAll visited).run seen).2 = visited.reverse ++ seen := by
  induction visited generalizing seen with
  | nil => rfl
  | cons mention rest ih =>
    change ((collect.visitAll rest).run ((collect.visit mention).run seen).2).2 = _
    rw [run_visit_collect, ih, List.reverse_cons, List.append_assoc]
    rfl

end Traversal

section Visitor

variable {α β γ δ : Type} {first : Visitor α} {second : Visitor β} {third : Visitor γ}
  {visited : List Mention} {events events₁ events₂ events₃ : List Scope.Event}

theorem Trace.run_collect (trace : Trace first events visited) (seen : List Mention) :
    ((first (StateM (List Mention)) .collect).run seen).2 = visited.reverse ++ seen := by
  obtain ⟨rebuild, hrebuild⟩ := trace.rebuild
  rw [hrebuild]
  exact Traversal.run_visitAll_collect visited seen

theorem Trace.visitedBy_eq (trace : Trace first events visited) : visitedBy first = visited := by
  rw [visitedBy, trace.run_collect, List.append_nil, List.reverse_reverse]

theorem Traced.trace (traced : Traced first events) : Trace first events (visitedBy first) := by
  obtain ⟨visited, trace⟩ := traced
  exact trace.visitedBy_eq ▸ trace

theorem Traced.run_collect (traced : Traced first events) (seen : List Mention) :
    ((first (StateM (List Mention)) .collect).run seen).2 = (visitedBy first).reverse ++ seen :=
  traced.trace.run_collect seen

theorem Traced.visitedBy_map₂ (f : α → β → γ) (hfirst : Traced first events₁)
    (hsecond : Traced second events₂) :
    visitedBy (fun m _ t => do
      let a ← first m t
      return f a (← second m t)) = visitedBy first ++ visitedBy second := by
  change ((second _ .collect).run ((first (StateM (List Mention)) .collect).run []).2).2.reverse = _
  rw [hfirst.run_collect, hsecond.run_collect]
  simp

theorem Traced.visitedBy_map₃ (f : α → β → γ → δ) (hfirst : Traced first events₁)
    (hsecond : Traced second events₂) (hthird : Traced third events₃) :
    visitedBy (fun m _ t => do
      let a ← first m t
      let b ← second m t
      return f a b (← third m t)) = visitedBy first ++ (visitedBy second ++ visitedBy third) := by
  change ((third _ .collect).run ((second _ .collect).run
    ((first (StateM (List Mention)) .collect).run []).2).2).2.reverse = _
  rw [hfirst.run_collect, hsecond.run_collect, hthird.run_collect]
  simp

end Visitor

theorem visitedBy_params (params : List Param) :
    visitedBy (fun _ _ t => params.mapM (Param.traverse t)) = params.map (.decl ·.id) := by
  induction params with
  | nil => rfl
  | cons param rest ih =>
    have hcons : visitedBy (fun _ _ t => (param :: rest).mapM (Param.traverse t)) =
        visitedBy (fun _ _ t => param.traverse t) ++
          visitedBy (fun _ _ t => rest.mapM (Param.traverse t)) := by
      rw [← Traced.visitedBy_map₂ List.cons param.traverse_traced
        (Traced.mapM rest Param.traverse_traced), visitedBy, visitedBy, List.mapM_cons]
    rw [hcons, ih]
    rfl

/-- The mentions of a member. -/
def Member.mentions (member : Member) : List Mention :=
  visitedBy fun _ _ t => member.traverse t

/-- The mentions of a type. -/
def TypeDecl.mentions (decl : TypeDecl) : List Mention :=
  visitedBy fun _ _ t => decl.traverse t

/-- The mentions of the types of a unit. -/
def CompilationUnit.mentions (unit : CompilationUnit) : List Mention :=
  unit.types.flatMap TypeDecl.mentions

theorem Method.mentions_eq_visitedBy (method : Method) :
    method.mentions = visitedBy fun _ _ t => method.traverse t := rfl

theorem Method.mentions_eq (method : Method) :
    method.mentions = .decl method.id :: (method.params.map (Mention.decl ·.id) ++
      visitedBy fun _ _ t => Block.traverseOption t method.body) := by
  obtain ⟨id, layout, annotations, modifiers, typeParams, returnType, name, params, throws, body⟩ :=
    method
  rw [mentions_eq_visitedBy, ← visitedBy_params]
  exact Traced.visitedBy_map₃
    (fun id params body => (⟨id, layout, annotations, modifiers, typeParams, returnType, name,
      params, throws, body⟩ : Method))
    (.silent id) (Traced.mapM params Param.traverse_traced) (Block.traverseOption_traced body)

theorem Member.visitedBy_traverseList (members : List Member) :
    visitedBy (fun _ _ t => Member.traverseList t members) = members.flatMap Member.mentions := by
  induction members with
  | nil => rfl
  | cons member rest ih =>
    rw [List.flatMap_cons, ← ih]
    exact Traced.visitedBy_map₂ List.cons member.traverse_traced (Member.traverseList_traced rest)

theorem TypeDecl.mentions_eq (decl : TypeDecl) :
    decl.mentions = .decl decl.id ::
      ((visitedBy fun _ _ t => EnumConstant.traverseList t decl.constants) ++
        decl.members.flatMap Member.mentions) := by
  obtain ⟨id, layout, annotations, modifiers, kind, name, typeParams, superTypes, interfaces,
    constants, members, endComments, closing⟩ := decl
  rw [mentions, ← Member.visitedBy_traverseList]
  exact Traced.visitedBy_map₃
    (fun id constants members => (⟨id, layout, annotations, modifiers, kind, name, typeParams,
      superTypes, interfaces, constants, members, endComments, closing⟩ : TypeDecl))
    (.silent id) (EnumConstant.traverseList_traced constants) (Member.traverseList_traced members)

theorem TypeDecl.members_mentions (decl : TypeDecl) :
    (decl.members.flatMap Member.mentions).Sublist decl.mentions := by
  rw [mentions_eq]
  exact (List.sublist_append_right _ _).trans (List.sublist_cons_self _ _)

@[simp] theorem Member.mentions_type (decl : TypeDecl) :
    (Member.type decl).mentions = decl.mentions := rfl

@[simp] theorem Member.mentions_method (method : Method) :
    (Member.method method).mentions = method.mentions := rfl

/-! ### Members by kind -/

/-- The methods among members. -/
def methodsAmong : List Member → List Method
  | [] => []
  | .method method :: rest => method :: methodsAmong rest
  | .field _ :: rest => methodsAmong rest
  | .type _ :: rest => methodsAmong rest
  | .initializer _ :: rest => methodsAmong rest

/-- The types among members. -/
def typesAmong : List Member → List TypeDecl
  | [] => []
  | .type decl :: rest => decl :: typesAmong rest
  | .field _ :: rest => typesAmong rest
  | .method _ :: rest => typesAmong rest
  | .initializer _ :: rest => typesAmong rest

theorem TypeDecl.methods_eq (decl : TypeDecl) : decl.methods = methodsAmong decl.members := by
  rw [methods]
  induction decl.members with
  | nil => rfl
  | cons member rest ih => cases member <;> simp [methodsAmong, ih]

theorem TypeDecl.memberTypes_eq (decl : TypeDecl) : decl.memberTypes = typesAmong decl.members := by
  rw [memberTypes]
  induction decl.members with
  | nil => rfl
  | cons member rest ih => cases member <;> simp [typesAmong, ih]

theorem mem_methodsAmong {method : Method} {members : List Member} :
    method ∈ methodsAmong members ↔ .method method ∈ members := by
  induction members with
  | nil => simp [methodsAmong]
  | cons member rest ih => cases member <;> simp [methodsAmong, ih]

theorem mem_typesAmong {decl : TypeDecl} {members : List Member} :
    decl ∈ typesAmong members ↔ .type decl ∈ members := by
  induction members with
  | nil => simp [typesAmong]
  | cons member rest ih => cases member <;> simp [typesAmong, ih]

theorem typesAmong_cons_of_ne {member : Member} (h : ∀ decl, member ≠ .type decl)
    (rest : List Member) : typesAmong (member :: rest) = typesAmong rest := by
  cases member with
  | type decl => exact absurd rfl (h decl)
  | field decl => rfl
  | method decl => rfl
  | initializer decl => rfl

theorem methodsAmong_cons_congr (member : Member) {rest rest' : List Member}
    (h : methodsAmong rest' = methodsAmong rest) :
    methodsAmong (member :: rest') = methodsAmong (member :: rest) := by
  cases member <;> simp [methodsAmong, h]

/-! ### Distinct identities -/

/-- With distinct identities, an item is found by its own. -/
theorem find?_id_of_mem {α β : Type} [BEq β] [LawfulBEq β] {id : α → β} {items : List α}
    (hnodup : (items.map id).Nodup) {item : α} (hmem : item ∈ items) :
    items.find? (fun other => id other == id item) = some item := by
  induction items with
  | nil => cases hmem
  | cons first rest ih =>
    rw [List.map_cons, List.nodup_cons] at hnodup
    rcases List.mem_cons.1 hmem with rfl | hmem
    · simp
    · have hne : id first ≠ id item := fun heq => hnodup.1 (heq ▸ List.mem_map_of_mem hmem)
      rw [List.find?_cons_of_neg (by simpa using hne)]
      exact ih hnodup.2 hmem

/-- Whether things mentioned have distinct identities. -/
def Distinct (mentions : List Mention) : Prop := (mentions.map Mention.id).Nodup

theorem Distinct.sublist {mentions mentions' : List Mention} (h : Distinct mentions)
    (hsub : mentions'.Sublist mentions) : Distinct mentions' :=
  List.Nodup.sublist (hsub.map _) h

theorem Distinct.of_mem {α : Type} {f : α → List Mention} {items : List α}
    (h : Distinct (items.flatMap f)) {item : α} (hitem : item ∈ items) : Distinct (f item) :=
  h.sublist (by
    obtain ⟨before, after, rfl⟩ := List.append_of_mem hitem
    rw [List.flatMap_append, List.flatMap_cons]
    exact (List.sublist_append_left _ _).trans (List.sublist_append_right _ _))

theorem Distinct.params {method : Method} (h : Distinct method.mentions) :
    (method.params.map (·.id)).Nodup := by
  rw [Method.mentions_eq] at h
  have hparams : Distinct (method.params.map (.decl ·.id)) :=
    h.sublist ((List.sublist_append_left _ _).trans (List.sublist_cons_self _ _))
  rwa [Distinct, List.map_map] at hparams

theorem decl_methodsAmong_sublist (members : List Member) :
    ((methodsAmong members).map fun method => Mention.decl method.id).Sublist
      (members.flatMap Member.mentions) := by
  induction members with
  | nil => exact .slnil
  | cons member rest ih =>
    rw [List.flatMap_cons]
    cases member with
    | method method =>
      rw [methodsAmong, List.map_cons, Member.mentions_method, Method.mentions_eq, List.cons_append]
      exact (ih.trans (List.sublist_append_right _ _)).cons_cons _
    | field decl => exact ih.trans (List.sublist_append_right _ _)
    | type decl => exact ih.trans (List.sublist_append_right _ _)
    | initializer decl => exact ih.trans (List.sublist_append_right _ _)

theorem Distinct.methods {decl : TypeDecl} (h : Distinct decl.mentions) :
    (decl.methods.map (·.id)).Nodup := by
  have hmethods :=
    (h.sublist decl.members_mentions).sublist (decl_methodsAmong_sublist decl.members)
  rwa [Distinct, List.map_map, ← TypeDecl.methods_eq] at hmethods

theorem Distinct.member {decl : TypeDecl} (h : Distinct decl.mentions) {member : Member}
    (hmember : member ∈ decl.members) : Distinct member.mentions :=
  (h.sublist decl.members_mentions).of_mem hmember

end AdviceMigration.Source
