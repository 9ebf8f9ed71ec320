import AdviceMigration.Scope.Body
import AdviceMigration.Source.Traverse
import Mathlib.Data.List.Nodup
import Mathlib.Data.List.Perm.Subperm

/-!
# What a traversal visits

A traversal visits a fixed list of declarations and name occurrences, in a fixed order, and rebuilds the tree from the answers; neither the list nor the way of rebuilding depends on what the traversal does or in which monad it runs. The rest of the development reaches `traverse` only through this fact, `Traced`, which also ties the list to the scope events: the names that occur are the names visited, every name is bound to a declaration visited, and nothing is declared more often than it is visited.
-/

namespace AdviceMigration.Source

open AdviceMigration.Scope

/-! ### Visits and answers -/

/-- What a traversal answers for a declaration or a name occurrence. -/
inductive Answer where
  | decl (id : NodeId)
  | name (expr : Expr)

/-- One answer for each thing visited. -/
inductive Answers : List Mention → Type where
  | nil : Answers []
  | cons {mention : Mention} {rest : List Mention} (answer : Answer) (answers : Answers rest) :
    Answers (mention :: rest)

namespace Answers

/-- Some answers, which say nothing. -/
def trivial : (visited : List Mention) → Answers visited
  | [] => .nil
  | _ :: rest => .cons (.decl 0) (trivial rest)

/-- The answers for two lists of things, one after the other. -/
def append {visited' : List Mention} : {visited : List Mention} → Answers visited →
    Answers visited' → Answers (visited ++ visited')
  | [], .nil, answers' => answers'
  | _ :: _, .cons answer answers, answers' => .cons answer (append answers answers')

/-- The answers for the first of two lists. -/
def left {visited' : List Mention} : {visited : List Mention} → Answers (visited ++ visited') →
    Answers visited
  | [], _ => .nil
  | _ :: _, .cons answer answers => .cons answer (left answers)

/-- The answers for the second of two lists. -/
def right {visited' : List Mention} : {visited : List Mention} → Answers (visited ++ visited') →
    Answers visited'
  | [], answers => answers
  | _ :: _, .cons _ answers => right answers

theorem left_append {visited visited' : List Mention} (answers : Answers visited)
    (answers' : Answers visited') : (answers.append answers').left = answers := by
  induction answers with
  | nil => rfl
  | cons answer answers ih => exact congrArg (cons answer) ih

theorem right_append {visited visited' : List Mention} (answers : Answers visited)
    (answers' : Answers visited') : (answers.append answers').right = answers' := by
  induction answers with
  | nil => rfl
  | cons answer answers ih => exact ih

end Answers

namespace Traversal

variable {m : Type → Type} [Monad m]

/-- The answer of a traversal for one declaration or name occurrence. -/
def visit (t : Traversal m) : Mention → m Answer
  | .decl id => .decl <$> t.decl id
  | .name id name => .name <$> t.name id name

/-- The answers of a traversal for a list of declarations and name occurrences, in order. -/
def visitAll (t : Traversal m) : (visited : List Mention) → m (Answers visited)
  | [] => pure .nil
  | mention :: rest => do
    let answer ← t.visit mention
    return .cons answer (← visitAll t rest)

theorem visitAll_append [LawfulMonad m] (t : Traversal m) (visited visited' : List Mention) :
    t.visitAll (visited ++ visited') = do
      let answers ← t.visitAll visited
      let answers' ← t.visitAll visited'
      return answers.append answers' := by
  induction visited with
  | nil => simp only [List.nil_append, visitAll, pure_bind, Answers.append, bind_pure]
  | cons mention rest ih =>
    simp only [List.cons_append, visitAll, ih, bind_assoc, pure_bind, Answers.append]

end Traversal

/-- The name occurrences among events, with their identities, in order. -/
def namesOf : List Event → List (NodeId × String)
  | [] => []
  | .use _ name id :: rest => (id, name) :: namesOf rest
  | .hold :: rest => namesOf rest
  | .open :: rest => namesOf rest
  | .release :: rest => namesOf rest
  | .swap :: rest => namesOf rest
  | .bind _ _ _ :: rest => namesOf rest
  | .effect :: rest => namesOf rest

attribute [simp] namesOf

@[simp] theorem namesOf_append (events events' : List Event) :
    namesOf (events ++ events') = namesOf events ++ namesOf events' := by
  induction events with
  | nil => rfl
  | cons event rest ih => cases event <;> simp [ih]

@[simp] theorem namesOf_map_bind {α : Type} (binder : Binder) (name : α → String) (id : α → NodeId)
    (items : List α) : namesOf (items.map fun item => .bind binder (name item) (id item)) = [] := by
  induction items with
  | nil => rfl
  | cons item rest ih => simpa using ih

@[simp] theorem namesOf_constantEvents (id : NodeId) (constants : List EnumConstant) :
    namesOf (constantEvents id constants) = [] :=
  namesOf_map_bind .enumConstant EnumConstant.name (fun _ => id) constants

/-- What is declared among events, in order. Constants stand for their enum, which they do not declare. -/
def declaredIn : List Event → List NodeId
  | [] => []
  | .bind binder _ id :: rest =>
    if binder = .enumConstant then declaredIn rest else id :: declaredIn rest
  | .use _ _ _ :: rest => declaredIn rest
  | .hold :: rest => declaredIn rest
  | .open :: rest => declaredIn rest
  | .release :: rest => declaredIn rest
  | .swap :: rest => declaredIn rest
  | .effect :: rest => declaredIn rest

attribute [simp] declaredIn

@[simp] theorem declaredIn_append (events events' : List Event) :
    declaredIn (events ++ events') = declaredIn events ++ declaredIn events' := by
  induction events with
  | nil => rfl
  | cons event rest ih =>
    cases event with
    | bind binder name id => by_cases h : binder = .enumConstant <;> simp [h, ih]
    | _ => simpa using ih

@[simp] theorem declaredIn_map_bind {α : Type} {binder : Binder} (hbinder : binder ≠ .enumConstant)
    (name : α → String) (id : α → NodeId) (items : List α) :
    declaredIn (items.map fun item => .bind binder (name item) (id item)) = items.map id := by
  induction items with
  | nil => rfl
  | cons item rest ih => simp [hbinder, ih]

@[simp] theorem declaredIn_constantEvents (id : NodeId) (constants : List EnumConstant) :
    declaredIn (constantEvents id constants) = [] := by
  induction constants with
  | nil => rfl
  | cons constant rest ih => exact ih

/-- The name occurrence among things visited, with its identity. -/
def Mention.name? : Mention → Option (NodeId × String)
  | .name id spelling => some (id, spelling)
  | .decl _ => none

/-- The declaration among things visited. -/
def Mention.decl? : Mention → Option NodeId
  | .name _ _ => none
  | .decl id => some id

/-! ### What events are about -/

/-- Whether events bind and mention what other events do. The scopes in between do not matter, nor does the order. -/
structure Retells (events' events : List Event) : Prop where
  binds : ∀ binder name id, .bind binder name id ∈ events' → .bind binder name id ∈ events
  names : (namesOf events').Perm (namesOf events)
  declares : (declaredIn events').Perm (declaredIn events)

namespace Retells

variable {events events' more more' : List Event}

theorem refl (events : List Event) : Retells events events := ⟨fun _ _ _ h => h, .refl _, .refl _⟩

theorem of_eq (h : events' = events) : Retells events' events := h ▸ refl events'

theorem trans (h : Retells events events') (h' : Retells events' more) : Retells events more :=
  ⟨fun binder name id hmem => h'.binds binder name id (h.binds binder name id hmem),
    h.names.trans h'.names, h.declares.trans h'.declares⟩

theorem append (h : Retells events' events) (hmore : Retells more' more) :
    Retells (events' ++ more') (events ++ more) where
  binds := fun binder name id hmem => by
    rw [List.mem_append] at hmem ⊢
    exact hmem.imp (h.binds binder name id) (hmore.binds binder name id)
  names := by
    rw [namesOf_append, namesOf_append]
    exact h.names.append hmore.names
  declares := by
    rw [declaredIn_append, declaredIn_append]
    exact h.declares.append hmore.declares

theorem comm (events more : List Event) : Retells (events ++ more) (more ++ events) where
  binds := fun binder name id hmem => List.mem_append.2 (List.mem_append.1 hmem).symm
  names := by
    rw [namesOf_append, namesOf_append]
    exact List.perm_append_comm
  declares := by
    rw [declaredIn_append, declaredIn_append]
    exact List.perm_append_comm

/-- The first and the third of four parts against the second and the fourth. -/
theorem middle (events more events' more' : List Event) :
    Retells ((events ++ more) ++ (events' ++ more')) ((events ++ events') ++ (more ++ more')) := by
  rw [List.append_assoc, List.append_assoc, ← List.append_assoc more, ← List.append_assoc events']
  exact (refl events).append ((comm more events').append (refl more'))

theorem swapLast (events more events' : List Event) :
    Retells (events ++ more ++ events') (events ++ events' ++ more) := by
  rw [List.append_assoc, List.append_assoc]
  exact (refl events).append (comm more events')

theorem effect (h : Retells events' events) : Retells (.effect :: events') events :=
  ⟨by simpa using h.binds, by simpa using h.names, by simpa using h.declares⟩

theorem effectIf (changes : Bool) (h : Retells events' events) :
    Retells (if changes then .effect :: events' else events') events := by
  cases changes with
  | true => exact h.effect
  | false => exact h

theorem opened (h : Retells events' events) : Retells (.open :: events') events :=
  ⟨by simpa using h.binds, by simpa using h.names, by simpa using h.declares⟩

theorem enclosed (h : Retells events' events) : Retells (Scope.enclosed events') events :=
  ⟨by simpa [Scope.enclosed] using h.binds, by simpa [Scope.enclosed] using h.names,
    by simpa [Scope.enclosed] using h.declares⟩

theorem held (h : Retells events' events) : Retells (Scope.held events') events :=
  ⟨by simpa [Scope.held] using h.binds, by simpa [Scope.held] using h.names,
    by simpa [Scope.held] using h.declares⟩

theorem outside (h : Retells events' events) : Retells (Scope.outside events') events :=
  ⟨by simpa [Scope.outside] using h.binds, by simpa [Scope.outside] using h.names,
    by simpa [Scope.outside] using h.declares⟩

/-- To be written is to be mentioned. -/
theorem write (name : String) (id : NodeId) : Retells [.use .write name id] [.use .read name id] :=
  ⟨by simp, .refl _, .refl _⟩

end Retells

/-! ### Traces -/

/-- A traversal of some part of a tree, for every monad. -/
abbrev Visitor (α : Type) := (m : Type → Type) → [Monad m] → Traversal m → m α

/-- The traversal `visitor` visits `visited` in order, and `events` are about the same names and declarations. -/
structure Trace {α : Type} (visitor : Visitor α) (events : List Event) (visited : List Mention) :
    Prop where
  rebuild : ∃ rebuild : Answers visited → α, ∀ (m : Type → Type) [Monad m] [LawfulMonad m]
    (t : Traversal m), visitor m t = rebuild <$> t.visitAll visited
  binds : ∀ binder name id, .bind binder name id ∈ events → .decl id ∈ visited
  names : (namesOf events).Perm (visited.filterMap Mention.name?)
  declares : (declaredIn events).Subperm (visited.filterMap Mention.decl?)
  constants : ∀ name id, .bind .enumConstant name id ∈ events →
    (declaredIn events).count id < (visited.filterMap Mention.decl?).count id

/-- A traversal with a fixed list of things it visits. -/
def Traced {α : Type} (visitor : Visitor α) (events : List Event) : Prop :=
  ∃ visited, Trace visitor events visited

namespace Trace

variable {α β : Type} {visitor : Visitor α} {events events' : List Event}
  {visited visited' : List Mention}

theorem pure (value : α) : Trace (fun _ _ _ => pure value) [] [] where
  rebuild := ⟨fun _ => value, fun m _ _ t => by simp only [Traversal.visitAll, map_pure]⟩
  binds := by simp
  names := .nil
  declares := .refl _
  constants := by simp

theorem nonempty (trace : Trace visitor events visited) : Nonempty α :=
  have ⟨rebuild, _⟩ := trace.rebuild
  ⟨rebuild (.trivial visited)⟩

/-- Two traversals one after the other. -/
theorem bind {next : (m : Type → Type) → [Monad m] → Traversal m → α → m β}
    (first : Trace visitor events visited)
    (second : ∀ a, Trace (fun m _ t => next m t a) events' visited') :
    Trace (fun m _ t => visitor m t >>= next m t) (events ++ events') (visited ++ visited') where
  rebuild := by
    obtain ⟨rebuild, hfirst⟩ := first.rebuild
    choose rebuild' hsecond using fun a => (second a).rebuild
    refine ⟨fun answers => rebuild' (rebuild answers.left) answers.right, fun m _ _ t => ?_⟩
    simp only [hfirst, hsecond, Traversal.visitAll_append, map_eq_pure_bind, bind_assoc, pure_bind,
      Answers.left_append, Answers.right_append]
  binds := by
    obtain ⟨a⟩ := first.nonempty
    intro binder name id h
    rw [List.mem_append] at h ⊢
    exact h.imp (first.binds _ _ _) ((second a).binds _ _ _)
  names := by
    obtain ⟨a⟩ := first.nonempty
    rw [namesOf_append, List.filterMap_append]
    exact first.names.append (second a).names
  declares := by
    obtain ⟨a⟩ := first.nonempty
    rw [declaredIn_append, List.filterMap_append]
    exact first.declares.append (second a).declares
  constants := by
    obtain ⟨a⟩ := first.nonempty
    intro name id h
    rw [declaredIn_append, List.filterMap_append, List.count_append, List.count_append]
    rcases List.mem_append.1 h with h | h
    · exact Nat.add_lt_add_of_lt_of_le (first.constants name id h)
        ((second a).declares.count_le id)
    · exact Nat.add_lt_add_of_le_of_lt (first.declares.count_le id)
        ((second a).constants name id h)

/-- A trace is about names and declarations only: events that open and close scopes may be added, and the order of the events does not matter. -/
theorem retold (trace : Trace visitor events visited) (h : Retells events' events) :
    Trace visitor events' visited where
  rebuild := trace.rebuild
  binds := fun binder name id hmem => trace.binds binder name id (h.binds binder name id hmem)
  names := h.names.trans trace.names
  declares := h.declares.subperm.trans trace.declares
  constants := fun name id hmem => by
    rw [h.declares.count_eq]
    exact trace.constants name id (h.binds _ name id hmem)

/-- Traversals that agree in every lawful monad have the same traces. -/
theorem of_eq {visitor' : Visitor α} (trace : Trace visitor events visited)
    (h : ∀ (m : Type → Type) [Monad m] [LawfulMonad m] (t : Traversal m),
      visitor' m t = visitor m t) : Trace visitor' events visited where
  rebuild := by
    obtain ⟨rebuild, hrebuild⟩ := trace.rebuild
    exact ⟨rebuild, fun m _ _ t => (h m t).trans (hrebuild m t)⟩
  binds := trace.binds
  names := trace.names
  declares := trace.declares
  constants := trace.constants

end Trace

namespace Traced

variable {α β γ δ ε : Type} {first : Visitor α} {second : Visitor β} {third : Visitor γ}
  {fourth : Visitor δ} {events events₁ events₂ events₃ events₄ : List Event}

theorem pure (value : α) : Traced (fun _ _ _ => pure value) [] := ⟨[], .pure value⟩

theorem map (f : α → β) (hfirst : Traced first events₁) :
    Traced (fun m _ t => do return f (← first m t)) events₁ := by
  obtain ⟨visited, trace⟩ := hfirst
  exact ⟨visited ++ [], by simpa only [List.append_nil] using trace.bind fun a => .pure (f a)⟩

theorem map₂ (f : α → β → γ) (hfirst : Traced first events₁) (hsecond : Traced second events₂) :
    Traced (fun m _ t => do
      let a ← first m t
      return f a (← second m t)) (events₁ ++ events₂) := by
  obtain ⟨visited₁, trace₁⟩ := hfirst
  obtain ⟨visited₂, trace₂⟩ := hsecond
  refine ⟨visited₁ ++ visited₂, trace₁.bind fun a => ?_⟩
  simpa only [List.append_nil] using trace₂.bind fun b => .pure (f a b)

theorem map₃ (f : α → β → γ → δ) (hfirst : Traced first events₁) (hsecond : Traced second events₂)
    (hthird : Traced third events₃) :
    Traced (fun m _ t => do
      let a ← first m t
      let b ← second m t
      return f a b (← third m t)) (events₁ ++ events₂ ++ events₃) := by
  obtain ⟨visited₁, trace₁⟩ := hfirst
  obtain ⟨visited₂, trace₂⟩ := hsecond
  obtain ⟨visited₃, trace₃⟩ := hthird
  rw [List.append_assoc]
  refine ⟨visited₁ ++ (visited₂ ++ visited₃), trace₁.bind fun a => trace₂.bind fun b => ?_⟩
  simpa only [List.append_nil] using trace₃.bind fun c => .pure (f a b c)

theorem map₄ (f : α → β → γ → δ → ε) (hfirst : Traced first events₁)
    (hsecond : Traced second events₂) (hthird : Traced third events₃)
    (hfourth : Traced fourth events₄) :
    Traced (fun m _ t => do
      let a ← first m t
      let b ← second m t
      let c ← third m t
      return f a b c (← fourth m t)) (events₁ ++ events₂ ++ events₃ ++ events₄) := by
  obtain ⟨visited₁, trace₁⟩ := hfirst
  obtain ⟨visited₂, trace₂⟩ := hsecond
  obtain ⟨visited₃, trace₃⟩ := hthird
  obtain ⟨visited₄, trace₄⟩ := hfourth
  rw [List.append_assoc, List.append_assoc]
  refine ⟨visited₁ ++ (visited₂ ++ (visited₃ ++ visited₄)),
    trace₁.bind fun a => trace₂.bind fun b => trace₃.bind fun c => ?_⟩
  simpa only [List.append_nil] using trace₄.bind fun d => .pure (f a b c d)

theorem retold (traced : Traced first events₁) (h : Retells events events₁) : Traced first events :=
  have ⟨visited, trace⟩ := traced
  ⟨visited, trace.retold h⟩

/-- A visit to a declaration covers any events that bind names to it. -/
theorem decl (id : NodeId)
    (hbinds : ∀ binder name other, .bind binder name other ∈ events → other = id)
    (hnames : namesOf events = []) (hdeclares : (declaredIn events).Subperm [id])
    (hconstants : ∀ name other, .bind .enumConstant name other ∈ events → declaredIn events = []) :
    Traced (fun _ _ t => t.decl id) events := by
  refine ⟨[.decl id], ⟨fun | .cons (.decl id) _ => id | .cons (.name _) _ => 0, ?_⟩, ?_, ?_,
    hdeclares, ?_⟩
  · intro m _ _ t
    simp only [Traversal.visitAll, Traversal.visit, map_eq_pure_bind, bind_assoc, pure_bind,
      bind_pure]
  · intro binder name other h
    rw [hbinds binder name other h]
    exact List.mem_singleton_self _
  · rw [hnames]
    exact .nil
  · intro name other h
    rw [hconstants name other h, hbinds _ name other h]
    simp [Mention.decl?]

/-- A visit to a declaration that no event is about. -/
theorem silent (id : NodeId) : Traced (fun _ _ t => t.decl id) [] :=
  .decl id (by simp) rfl (List.nil_subperm) (by simp)

/-- A visit to a declaration with the event that binds a name to it. -/
theorem binder (binder : Binder) (name : String) (id : NodeId) :
    Traced (fun _ _ t => t.decl id) [.bind binder name id] := by
  refine .decl id (by simp) rfl ?_ ?_
  · by_cases h : binder = .enumConstant <;> simp [h]
  · intro name other h
    cases List.mem_singleton.1 h
    rfl

/-- A visit to an enum, which its constants stand for. -/
theorem constants (id : NodeId) (constants : List EnumConstant) :
    Traced (fun _ _ t => t.decl id) (constantEvents id constants) := by
  refine .decl id ?_ (namesOf_constantEvents id constants)
    (declaredIn_constantEvents id constants ▸ List.nil_subperm)
    fun _ _ _ => declaredIn_constantEvents id constants
  intro binder name other h
  obtain ⟨constant, -, heq⟩ := List.mem_map.1 h
  cases heq
  rfl

theorem name (id : NodeId) (spelling : String) :
    Traced (fun _ _ t => t.name id spelling) [.use .read spelling id] := by
  refine ⟨[.name id spelling],
    ⟨fun | .cons (.name expr) _ => expr | .cons (.decl _) _ => .this, ?_⟩, ?_, .refl _, .refl _, ?_⟩
  · intro m _ _ t
    simp only [Traversal.visitAll, Traversal.visit, map_eq_pure_bind, bind_assoc, pure_bind,
      bind_pure]
  · intro binder name other h
    simp at h
  · intro name other h
    simp at h

/-- Items traversed one after the other. -/
theorem mapM {f : α → Visitor β} {event : α → Event} (items : List α)
    (h : ∀ item, Traced (f item) [event item]) :
    Traced (fun m _ t => items.mapM fun item => f item m t) (items.map event) := by
  induction items with
  | nil => exact .pure []
  | cons item rest ih =>
    obtain ⟨visited, trace⟩ := map₂ List.cons (h item) ih
    exact ⟨visited, trace.of_eq fun m _ _ t => List.mapM_cons⟩

end Traced

/-! ### Traces of trees -/

/-- The names bound by the variables of a field declaration, and what their initial values say. -/
def Declarator.fieldEvents (declarators : List Declarator) : List Event :=
  declarators.map (fun d => .bind .field d.name d.id) ++ Declarator.initEvents declarators

theorem fieldEvents_cons (member : Member) (rest : List Member) :
    fieldEvents (member :: rest) = fieldEvents [member] ++ fieldEvents rest := by
  rw [fieldEvents, fieldEvents, fieldEvents, List.flatMap_cons, List.flatMap_singleton]

/-- An assignment mentions its target and then its value; only the role of a bare name differs. -/
theorem Expr.events_assign (target : Expr) (op : AssignOp) (value : Expr) :
    (∃ id name, target = .name id name ∧ op = .assign ∧
      (Expr.assign target op value).events = .effect :: .use .write name id :: value.events) ∨
    (Expr.assign target op value).events = .effect :: target.events ++ value.events := by
  cases target with
  | name id name =>
    cases op with
    | assign => exact .inl ⟨id, name, rfl, rfl, rfl⟩
    | _ => exact .inr rfl
  | _ => exact .inr rfl

theorem Expr.retells_assign (target : Expr) (op : AssignOp) (value : Expr) :
    Retells (Expr.assign target op value).events (target.events ++ value.events) := by
  obtain ⟨id, name, rfl, rfl, h⟩ | h := Expr.events_assign target op value
  · rw [h]
    exact ((Retells.write name id).append (.refl _)).effect
  · rw [h]
    exact .effect (.refl _)

theorem LambdaParam.traverse_traced (param : LambdaParam) :
    Traced (fun _ _ t => param.traverse t) [.bind .lambdaParam param.name param.id] :=
  Traced.map (fun id => ({ param with id := id } : LambdaParam)) (.binder .lambdaParam _ _)

theorem PatternBinding.traverse_traced (binding : PatternBinding) :
    Traced (fun _ _ t => binding.traverse t) [.bind .pattern binding.name binding.id] :=
  Traced.map (fun id => ({ binding with id := id } : PatternBinding)) (.binder .pattern _ _)

theorem Param.traverse_traced (param : Param) :
    Traced (fun _ _ t => param.traverse t) [.bind .methodParam param.name param.id] :=
  Traced.map (fun id => ({ param with id := id } : Param)) (.binder .methodParam _ _)

theorem LoopVar.traverse_traced : (var : LoopVar) →
    Traced (fun _ _ t => var.traverse t) [.bind .variable var.name var.id]
  | ⟨id, annotations, modifiers, type, name⟩ =>
    Traced.map (fun id => LoopVar.mk id annotations modifiers type name) (.binder .variable name id)

mutual
theorem Expr.traverse_traced : (expr : Expr) → Traced (fun _ _ t => expr.traverse t) expr.events
  | .name id spelling => .name id spelling
  | .literal _ => .pure _
  | .field receiver _ => receiver.traverse_traced.map _
  | .call none _ _ args => ((Expr.traverseList_traced args).map _).retold (.effect (.refl _))
  | .call (some receiver) _ _ args =>
    (receiver.traverse_traced.map₂ _ (Expr.traverseList_traced args)).retold (.effect (.refl _))
  | .index array index => array.traverse_traced.map₂ _ index.traverse_traced
  | .assign target op value =>
    (target.traverse_traced.map₂ _ value.traverse_traced).retold (Expr.retells_assign target op value)
  | .binary _ left right => left.traverse_traced.map₂ _ right.traverse_traced
  | .unary op operand =>
    (operand.traverse_traced.map _).retold (.effectIf op.hasSideEffects (.refl _))
  | .conditional cond yes no => cond.traverse_traced.map₃ _ yes.traverse_traced no.traverse_traced
  | .cast _ operand => operand.traverse_traced.map _
  | .instanceOf operand _ none => operand.traverse_traced.map _
  | .instanceOf operand _ (some binding) => operand.traverse_traced.map₂ _ binding.traverse_traced
  | .new outer _ args body =>
    ((Expr.traverseOption_traced outer).map₃ _ (Expr.traverseList_traced args)
      (Member.traverseBody_traced body)).retold (.effect (.refl _))
  | .newArray _ dims init =>
    ((Expr.traverseDims_traced dims).map₂ _ (Expr.traverseItems_traced init)).retold
      (.effect (.refl _))
  | .arrayInit items => (Expr.traverseList_traced items).map _
  | .lambda params _ body =>
    ((Traced.mapM params LambdaParam.traverse_traced).map₂ _ body.traverse_traced).retold
      (.enclosed (.refl _))
  | .methodRef target _ => target.traverse_traced.map _
  | .classLiteral _ => .pure _
  | .this => .pure _
  | .super => .pure _
  | .paren inner => inner.traverse_traced.map _
  | .typeName _ => .pure _

theorem Expr.traverseList_traced : (exprs : List Expr) →
    Traced (fun _ _ t => Expr.traverseList t exprs) (Expr.eventsList exprs)
  | [] => .pure _
  | expr :: rest => expr.traverse_traced.map₂ _ (Expr.traverseList_traced rest)

theorem Expr.traverseOption_traced : (expr : Option Expr) →
    Traced (fun _ _ t => Expr.traverseOption t expr) (Expr.eventsOption expr)
  | none => .pure _
  | some expr => expr.traverse_traced.map _

theorem Expr.traverseDims_traced : (dims : List (Option Expr)) →
    Traced (fun _ _ t => Expr.traverseDims t dims) (Expr.eventsDims dims)
  | [] => .pure _
  | dim :: rest => (Expr.traverseOption_traced dim).map₂ _ (Expr.traverseDims_traced rest)

theorem Expr.traverseItems_traced : (items : Option (List Expr)) →
    Traced (fun _ _ t => Expr.traverseItems t items) (Expr.eventsItems items)
  | none => .pure _
  | some items => (Expr.traverseList_traced items).map _

theorem LambdaBody.traverse_traced : (body : LambdaBody) →
    Traced (fun _ _ t => body.traverse t) body.events
  | .expr value => value.traverse_traced.map _
  | .block body => body.traverse_traced.map _

theorem Block.traverse_traced : (body : Block) → Traced (fun _ _ t => body.traverse t) body.events
  | ⟨stmts, _, _⟩ => ((Stmt.traverseList_traced stmts).map _).retold (.enclosed (.refl _))

theorem Block.traverseOption_traced : (body : Option Block) →
    Traced (fun _ _ t => Block.traverseOption t body) (Block.eventsOption body)
  | none => .pure _
  | some body => body.traverse_traced.map _

theorem Stmt.traverseList_traced : (stmts : List Stmt) →
    Traced (fun _ _ t => Stmt.traverseList t stmts) (Stmt.eventsList stmts)
  | [] => .pure _
  | stmt :: rest => stmt.traverse_traced.map₂ _ (Stmt.traverseList_traced rest)

theorem Stmt.traverse_traced : (stmt : Stmt) → Traced (fun _ _ t => stmt.traverse t) stmt.events
  | ⟨_, _, kind⟩ => kind.traverse_traced.map _

theorem StmtKind.traverse_traced : (kind : StmtKind) →
    Traced (fun _ _ t => kind.traverse t) kind.events
  | .block body => body.traverse_traced.map _
  | .localVar decl => decl.traverse_traced.map _
  | .localClass decl => decl.traverse_traced.map _
  | .expr value => value.traverse_traced.map _
  | .ret value => (Expr.traverseOption_traced value).map _
  | .ifElse cond yes none =>
    (cond.traverse_traced.map₂ _ yes.traverse_traced).retold
      ((Retells.refl _).append (.enclosed (.refl _)))
  | .ifElse cond yes (some no) =>
    (cond.traverse_traced.map₃ _ yes.traverse_traced no.traverse_traced).retold
      (((Retells.refl _).append (.enclosed (.refl _))).append (.enclosed (.refl _)))
  | .whileLoop cond body =>
    (cond.traverse_traced.map₂ _ body.traverse_traced).retold
      ((Retells.refl _).append (.enclosed (.refl _)))
  | .doWhile body cond =>
    (body.traverse_traced.map₂ _ cond.traverse_traced).retold
      ((Retells.refl _).enclosed.append (.refl _))
  | .forLoop init cond update body =>
    (init.traverse_traced.map₄ _ (Expr.traverseOption_traced cond)
      (Expr.traverseList_traced update) body.traverse_traced).retold
      ((Retells.refl _).append (.enclosed (.refl _))).enclosed
  | .forEach var iterable body =>
    (iterable.traverse_traced.map₃ _ var.traverse_traced body.traverse_traced).retold
      (((Retells.refl _).append (.enclosed (.refl _))).trans (.of_eq (List.append_cons ..)))
  | .tryBlock resources body catches finallyBody =>
    ((Resource.traverseList_traced resources).map₄ _ body.traverse_traced
      (CatchClause.traverseList_traced catches) (Block.traverseOption_traced finallyBody)).retold
      (((Retells.refl _).enclosed.append (.refl _)).append (.refl _))
  | .throw value => value.traverse_traced.map _
  | .breakTo _ => .pure _
  | .continueTo _ => .pure _
  | .switch selector cases =>
    (selector.traverse_traced.map₂ _ (SwitchCase.traverseList_traced cases)).retold
      ((Retells.refl _).append (.enclosed (.refl _)))
  | .sync lock body => lock.traverse_traced.map₂ _ body.traverse_traced
  | .labeled _ body => (body.traverse_traced.map _).retold (.held (.refl _))
  | .assertion cond message => cond.traverse_traced.map₂ _ (Expr.traverseOption_traced message)
  | .empty => .pure _

theorem ForInit.traverse_traced : (init : ForInit) →
    Traced (fun _ _ t => init.traverse t) init.events
  | .decl decl => decl.traverse_traced.map _
  | .exprs values => (Expr.traverseList_traced values).map _

theorem Resource.traverseList_traced : (resources : List Resource) →
    Traced (fun _ _ t => Resource.traverseList t resources) (Resource.eventsList resources)
  | [] => .pure _
  | .decl decl :: rest => decl.traverse_traced.map₂ _ (Resource.traverseList_traced rest)
  | .expr value :: rest => value.traverse_traced.map₂ _ (Resource.traverseList_traced rest)

theorem CatchClause.traverseList_traced : (clauses : List CatchClause) →
    Traced (fun _ _ t => CatchClause.traverseList t clauses) (CatchClause.eventsList clauses)
  | [] => .pure _
  | ⟨id, _, _, _, name, body⟩ :: rest =>
    ((Traced.binder .catchParam name id).map₃ _ body.traverse_traced
      (CatchClause.traverseList_traced rest)).retold ((Retells.refl _).enclosed.append (.refl _))

theorem SwitchCase.traverseList_traced : (cases : List SwitchCase) →
    Traced (fun _ _ t => SwitchCase.traverseList t cases) (SwitchCase.eventsList cases)
  | [] => .pure _
  | ⟨_, labels, _, .colon, ⟨stmts, _, _⟩⟩ :: rest =>
    ((Expr.traverseList_traced labels).map₃ _ ((Stmt.traverseList_traced stmts).map _)
      (SwitchCase.traverseList_traced rest)).retold
      (((Retells.refl _).outside.append (.refl _)).append (.refl _))
  | ⟨_, labels, _, .arrowBlock, body⟩ :: rest =>
    ((Expr.traverseList_traced labels).map₃ _ body.traverse_traced
      (SwitchCase.traverseList_traced rest)).retold ((Retells.refl _).outside.append (.refl _))
  | ⟨_, labels, _, .arrowSingle, body⟩ :: rest =>
    ((Expr.traverseList_traced labels).map₃ _ body.traverse_traced
      (SwitchCase.traverseList_traced rest)).retold ((Retells.refl _).outside.append (.refl _))

theorem LocalVar.traverse_traced : (decl : LocalVar) →
    Traced (fun _ _ t => decl.traverse t) decl.events
  | ⟨_, _, _, declarators⟩ => (Declarator.traverseList_traced declarators).1.map _

theorem Declarator.traverseList_traced : (declarators : List Declarator) →
    Traced (fun _ _ t => Declarator.traverseList t declarators)
    (Declarator.eventsList declarators) ∧ Traced (fun _ _ t => Declarator.traverseList t
    declarators) (Declarator.fieldEvents declarators)
  | [] => ⟨.pure _, .pure _⟩
  | ⟨id, name, _, init⟩ :: rest =>
    ⟨((Traced.binder .variable name id).map₃ _ (Expr.traverseOption_traced init)
        (Declarator.traverseList_traced rest).1).retold (.opened (.refl _)),
      ((Traced.binder .field name id).map₃ _ (Expr.traverseOption_traced init)
        (Declarator.traverseList_traced rest).2).retold (.middle [_] _ _ _)⟩

theorem Member.traverseBody_traced : (members : Option (List Member)) →
    Traced (fun _ _ t => Member.traverseBody t members) (Member.eventsBody members)
  | none => .pure _
  | some members => ((Member.traverseList_traced members).map _).retold (.enclosed (.refl _))

theorem Member.traverseList_traced : (members : List Member) →
    Traced (fun _ _ t => Member.traverseList t members) (fieldEvents members ++
    Member.eventsList members)
  | [] => .pure _
  | member :: rest =>
    (member.traverse_traced.map₂ _ (Member.traverseList_traced rest)).retold
      (((Retells.of_eq (fieldEvents_cons member rest)).append (.refl _)).trans (.middle _ _ _ _))

theorem Member.traverse_traced : (member : Member) →
    Traced (fun _ _ t => member.traverse t) (fieldEvents [member] ++ member.events)
  | .field ⟨_, _, _, _, declarators, _⟩ =>
    (((Declarator.traverseList_traced declarators).2.map _).map _).retold
      ((Retells.of_eq (List.append_nil _)).append (.refl _))
  | .method decl => decl.traverse_traced.map _
  | .type decl => decl.traverse_traced.map _
  | .initializer ⟨_, _, body⟩ => (body.traverse_traced.map _).map _

theorem Method.traverse_traced : (decl : Method) →
    Traced (fun _ _ t => decl.traverse t) (Member.method decl).events
  | ⟨id, _, _, _, _, _, _, params, _, body⟩ =>
    ((Traced.silent id).map₃ _ (Traced.mapM params Param.traverse_traced)
      (Block.traverseOption_traced body)).retold (.enclosed (.refl _))

theorem TypeDecl.traverse_traced : (decl : TypeDecl) →
    Traced (fun _ _ t => decl.traverse t) decl.events
  | ⟨id, _, _, _, _, _, _, _, _, constants, members, _, _⟩ =>
    ((Traced.constants id constants).map₃ _ (EnumConstant.traverseList_traced constants)
      (Member.traverseList_traced members)).retold
      (((Retells.of_eq (List.append_assoc ..)).append (.refl _)).trans (.swapLast _ _ _)).enclosed

theorem EnumConstant.traverseList_traced : (constants : List EnumConstant) →
    Traced (fun _ _ t => EnumConstant.traverseList t constants) (EnumConstant.eventsList constants)
  | [] => .pure _
  | ⟨_, _, _, args, body⟩ :: rest =>
    (Expr.traverseItems_traced args).map₃ _ (Member.traverseBody_traced body)
      (EnumConstant.traverseList_traced rest)
end

end AdviceMigration.Source
