import AdviceMigration.Proofs.Source.Cursors
import AdviceMigration.Proofs.Source.Identities
import AdviceMigration.Proofs.Source.Supply

/-!
# Drawing identities

What an edit makes of the identities of a tree: some of them go, and new ones come from the supply. `Redrawn` counts them, so that edits can be taken one after the other and beside identities that they do not touch. A computation that rebuilds a tree is followed with a `Ledger`, which says of each step what it makes of the identities it holds; a traversal keeps the ledger if its two actions do.
-/

namespace AdviceMigration.Source

/-! ### Identities before and after -/

/-- Whether identities are some of the given ones, and ones drawn from `first` to `next`, each of which occurs once. -/
structure Redrawn (ids : List NodeId) (first : Nat) (ids' : List NodeId) (next : Nat) : Prop where
  le : first ≤ next
  count_le : ∀ id : Nat, ids'.count id ≤ ids.count id + if first ≤ id ∧ id < next then 1 else 0

namespace Redrawn

variable {ids ids' ids'' others : List NodeId} {first next next' : Nat}

theorem of_count_le (h : ∀ id : Nat, ids'.count id ≤ ids.count id) : Redrawn ids next ids' next :=
  ⟨Nat.le_refl next, fun id => Nat.le_trans (h id) (Nat.le_add_right _ _)⟩

theorem refl (ids : List NodeId) (next : Nat) : Redrawn ids next ids next :=
  .of_count_le fun _ => Nat.le_refl _

theorem of_perm (h : ids'.Perm ids) : Redrawn ids next ids' next :=
  .of_count_le fun id => Nat.le_of_eq (h.count_eq id)

theorem of_sublist (h : ids'.Sublist ids) : Redrawn ids next ids' next :=
  .of_count_le fun id => h.count_le id

theorem of_eq (h : Redrawn ids first ids' next) (heq : ids' = ids'') :
    Redrawn ids first ids'' next := heq ▸ h

theorem trans (h : Redrawn ids first ids' next) (h' : Redrawn ids' next ids'' next') :
    Redrawn ids first ids'' next' := by
  refine ⟨Nat.le_trans h.le h'.le, fun id => ?_⟩
  have hle := h.le
  have hle' := h'.le
  have hcount := h.count_le id
  have hcount' := h'.count_le id
  split at hcount <;> split at hcount' <;> split <;> omega

/-- Identities that are not touched stay beside the others. -/
theorem frame (h : Redrawn ids first ids' next) (others : List NodeId) :
    Redrawn (others ++ ids) first (others ++ ids') next := by
  refine ⟨h.le, fun id => ?_⟩
  rw [List.count_append, List.count_append, Nat.add_assoc]
  exact Nat.add_le_add_left (h.count_le id) _

theorem frameRight (h : Redrawn ids first ids' next) (others : List NodeId) :
    Redrawn (ids ++ others) first (ids' ++ others) next :=
  ((Redrawn.of_perm List.perm_append_comm).trans (h.frame others)).trans
    (.of_perm List.perm_append_comm)

/-- One more identity is drawn. -/
theorem draw (next : Nat) : Redrawn [] next [next] (next + 1) := by
  refine ⟨Nat.le_succ next, fun id => ?_⟩
  rw [List.count_singleton, List.count_nil, Nat.zero_add]
  by_cases heq : next = id
  · subst heq
    simp
  · rw [if_neg (mt beq_iff_eq.1 heq)]
    exact Nat.zero_le _

/-- Identities that occur once still do when some go and unused ones come. -/
theorem issued (h : Redrawn ids first ids' next) (hissued : Issued ids first) :
    Issued ids' next := by
  have hcount : ∀ id : Nat, ids.count id ≤ if id < first then 1 else 0 := by
    intro id
    split
    next => exact List.nodup_iff_count_le_one.1 hissued.nodup id
    next hlt => exact Nat.le_of_eq (List.count_eq_zero.2 fun hid => hlt (hissued.below id hid))
  have hcount' : ∀ id : Nat, ids'.count id ≤ if id < next then 1 else 0 := by
    intro id
    have hle := h.le
    have hid := hcount id
    have hid' := h.count_le id
    split at hid <;> split at hid' <;> split <;> omega
  constructor
  · refine List.nodup_iff_count_le_one.2 fun id => Nat.le_trans (hcount' id) ?_
    split <;> decide
  · intro id hid
    by_contra hlt
    have hzero := hcount' id
    rw [if_neg hlt, Nat.le_zero, List.count_eq_zero] at hzero
    exact hzero hid

end Redrawn

/-! ### Ledgers -/

/-- What it means, for computations of one kind, to make the identities of a result out of those that were visited. -/
structure Ledger (m : Type → Type) [Monad m] [LawfulMonad m] where
  Keeps : {α : Type} → List NodeId → m α → (α → List NodeId) → Prop
  pure : ∀ {α : Type} {value : α} {ids : α → List NodeId}, ids value = [] → Keeps [] (pure value) ids
  map : ∀ {α ε : Type} {visited : List NodeId} {first : m α} {ids₁ : α → List NodeId}
    {ids : ε → List NodeId} {f : α → ε}, Keeps visited first ids₁ →
    (∀ a, ids (f a) = ids₁ a) → Keeps visited (do return f (← first)) ids
  map₂ : ∀ {α β ε : Type} {visited visited₁ visited₂ : List NodeId} {first : m α} {second : m β}
    {ids₁ : α → List NodeId} {ids₂ : β → List NodeId} {ids : ε → List NodeId} {f : α → β → ε},
    Keeps visited₁ first ids₁ → Keeps visited₂ second ids₂ → visited = visited₁ ++ visited₂ →
    (∀ a b, ids (f a b) = ids₁ a ++ ids₂ b) →
    Keeps visited (do
      let a ← first
      return f a (← second)) ids

/-- Whether both actions of a traversal keep a ledger. -/
structure Ledger.Admits {m : Type → Type} [Monad m] [LawfulMonad m] (ledger : Ledger m)
    (t : Traversal m) : Prop where
  decl : ∀ id, ledger.Keeps [id] (t.decl id) fun id => [id]
  name : ∀ id name, ledger.Keeps [id] (t.name id name) Expr.ids

namespace Ledger

variable {m : Type → Type} [Monad m] [LawfulMonad m] {ledger : Ledger m} {α β γ δ ε : Type}
  {visited visited₁ visited₂ visited₃ visited₄ : List NodeId} {ids₁ : α → List NodeId}
  {ids₂ : β → List NodeId} {ids₃ : γ → List NodeId} {ids₄ : δ → List NodeId}
  {ids : ε → List NodeId} {first : m α} {second : m β} {third : m γ} {fourth : m δ}

theorem Keeps.map {f : α → ε} (h : ledger.Keeps visited first ids₁)
    (hf : ∀ a, ids (f a) = ids₁ a) : ledger.Keeps visited (do return f (← first)) ids :=
  ledger.map h hf

theorem Keeps.map₂ {f : α → β → ε} (hfirst : ledger.Keeps visited₁ first ids₁)
    (hsecond : ledger.Keeps visited₂ second ids₂) (hvisited : visited = visited₁ ++ visited₂)
    (hf : ∀ a b, ids (f a b) = ids₁ a ++ ids₂ b) :
    ledger.Keeps visited (do
      let a ← first
      return f a (← second)) ids :=
  ledger.map₂ hfirst hsecond hvisited hf

theorem Keeps.map₃ {f : α → β → γ → ε} (hfirst : ledger.Keeps visited₁ first ids₁)
    (hsecond : ledger.Keeps visited₂ second ids₂) (hthird : ledger.Keeps visited₃ third ids₃)
    (hvisited : visited = visited₁ ++ (visited₂ ++ visited₃))
    (hf : ∀ a b c, ids (f a b c) = ids₁ a ++ (ids₂ b ++ ids₃ c)) :
    ledger.Keeps visited (do
      let a ← first
      let b ← second
      return f a b (← third)) ids := by
  have hpair : ledger.Keeps (visited₁ ++ visited₂) (do
      let a ← first
      return (a, ← second)) fun ab => ids₁ ab.1 ++ ids₂ ab.2 :=
    hfirst.map₂ hsecond rfl fun _ _ => rfl
  have hall := hpair.map₂ (f := fun ab c => f ab.1 ab.2 c) hthird
    (hvisited.trans (List.append_assoc _ _ _).symm)
    fun ab c => (hf ab.1 ab.2 c).trans (List.append_assoc _ _ _).symm
  simpa only [bind_assoc, pure_bind] using hall

theorem Keeps.map₄ {f : α → β → γ → δ → ε} (hfirst : ledger.Keeps visited₁ first ids₁)
    (hsecond : ledger.Keeps visited₂ second ids₂) (hthird : ledger.Keeps visited₃ third ids₃)
    (hfourth : ledger.Keeps visited₄ fourth ids₄)
    (hvisited : visited = visited₁ ++ (visited₂ ++ (visited₃ ++ visited₄)))
    (hf : ∀ a b c d, ids (f a b c d) = ids₁ a ++ (ids₂ b ++ (ids₃ c ++ ids₄ d))) :
    ledger.Keeps visited (do
      let a ← first
      let b ← second
      let c ← third
      return f a b c (← fourth)) ids := by
  have hpair : ledger.Keeps (visited₁ ++ visited₂) (do
      let a ← first
      return (a, ← second)) fun ab => ids₁ ab.1 ++ ids₂ ab.2 :=
    hfirst.map₂ hsecond rfl fun _ _ => rfl
  have hall := hpair.map₃ (f := fun ab c d => f ab.1 ab.2 c d) hthird hfourth
    (hvisited.trans (List.append_assoc _ _ _).symm)
    fun ab c d => (hf ab.1 ab.2 c d).trans (List.append_assoc _ _ _).symm
  simpa only [bind_assoc, pure_bind] using hall

/-- Items with one identity each. -/
theorem Keeps.mapM {make : α → m α} {item : α → NodeId} (items : List α)
    (h : ∀ a, ledger.Keeps [item a] (make a) fun a => [item a]) :
    ledger.Keeps (items.map item) (items.mapM make) fun items => items.map item := by
  induction items with
  | nil => exact ledger.pure rfl
  | cons a rest ih =>
    rw [List.mapM_cons]
    exact .map₂ (h a) ih rfl fun _ _ => rfl

end Ledger

/-! ### Traversals -/

section Traversal

variable {m : Type → Type} [Monad m] [LawfulMonad m] {ledger : Ledger m} {t : Traversal m}

theorem LambdaParam.keeps (h : ledger.Admits t) (param : LambdaParam) :
    ledger.Keeps [param.id] (param.traverse t) fun param => [param.id] :=
  .map (h.decl param.id) fun _ => rfl

theorem PatternBinding.keeps (h : ledger.Admits t) (binding : PatternBinding) :
    ledger.Keeps [binding.id] (binding.traverse t) fun binding => [binding.id] :=
  .map (h.decl binding.id) fun _ => rfl

theorem Param.keeps (h : ledger.Admits t) (param : Param) :
    ledger.Keeps [param.id] (param.traverse t) fun param => [param.id] :=
  .map (h.decl param.id) fun _ => rfl

theorem LoopVar.keeps (h : ledger.Admits t) :
    (var : LoopVar) → ledger.Keeps [var.id] (var.traverse t) fun var => [var.id]
  | ⟨id, _, _, _, _⟩ => .map (h.decl id) fun _ => rfl

mutual
theorem Expr.keeps (h : ledger.Admits t) :
    (expr : Expr) → ledger.Keeps expr.ids (expr.traverse t) Expr.ids
  | .name id name => h.name id name
  | .literal _ => ledger.pure rfl
  | .field receiver _ => .map (receiver.keeps h) fun _ => rfl
  | .call none _ _ args => by
    rw [Expr.ids_call]
    exact .map (Expr.keepsList h args) fun _ => Expr.ids_call _ _ _ _
  | .call (some receiver) _ _ args =>
    .map₂ (receiver.keeps h) (Expr.keepsList h args) (by simp) fun _ _ => by simp
  | .index array index =>
    .map₂ (array.keeps h) (index.keeps h) (Expr.ids_index _ _) fun _ _ => Expr.ids_index _ _
  | .assign target _ value =>
    .map₂ (target.keeps h) (value.keeps h) (Expr.ids_assign _ _ _) fun _ _ => Expr.ids_assign _ _ _
  | .binary _ left right =>
    .map₂ (left.keeps h) (right.keeps h) (Expr.ids_binary _ _ _) fun _ _ => Expr.ids_binary _ _ _
  | .unary _ operand => .map (operand.keeps h) fun _ => rfl
  | .conditional cond yes no =>
    .map₃ (cond.keeps h) (yes.keeps h) (no.keeps h) (Expr.ids_conditional _ _ _)
      fun _ _ _ => Expr.ids_conditional _ _ _
  | .cast _ operand => .map (operand.keeps h) fun _ => rfl
  | .instanceOf operand _ none =>
    .map (operand.keeps h) fun _ => rfl
  | .instanceOf operand _ (some binding) =>
    .map₂ (operand.keeps h) (binding.keeps h) (Expr.ids_instanceOf _ _ _)
      fun _ _ => Expr.ids_instanceOf _ _ _
  | .new outer _ args body =>
    .map₃ (Expr.keepsOption h outer) (Expr.keepsList h args) (Member.keepsBody h body)
      (Expr.ids_new _ _ _ _) fun _ _ _ => Expr.ids_new _ _ _ _
  | .newArray _ dims init =>
    .map₂ (Expr.keepsDims h dims) (Expr.keepsItems h init) (Expr.ids_newArray _ _ _)
      fun _ _ => Expr.ids_newArray _ _ _
  | .arrayInit items => by
    rw [Expr.ids_arrayInit]
    exact .map (Expr.keepsList h items) fun _ => Expr.ids_arrayInit _
  | .lambda params _ body =>
    .map₂ (.mapM params (LambdaParam.keeps h)) (body.keeps h) (Expr.ids_lambda _ _ _)
      fun _ _ => Expr.ids_lambda _ _ _
  | .methodRef target _ => .map (target.keeps h) fun _ => rfl
  | .classLiteral _ => ledger.pure rfl
  | .this => ledger.pure rfl
  | .super => ledger.pure rfl
  | .paren inner => .map (inner.keeps h) fun _ => rfl
  | .typeName _ => ledger.pure rfl

theorem Expr.keepsList (h : ledger.Admits t) : (exprs : List Expr) →
    ledger.Keeps (exprs.flatMap Expr.ids) (Expr.traverseList t exprs)
      fun exprs => exprs.flatMap Expr.ids
  | [] => ledger.pure rfl
  | expr :: rest => .map₂ (expr.keeps h) (Expr.keepsList h rest) rfl fun _ _ => rfl

theorem Expr.keepsOption (h : ledger.Admits t) : (expr : Option Expr) →
    ledger.Keeps (expr.toList.flatMap Expr.ids) (Expr.traverseOption t expr)
      fun expr => expr.toList.flatMap Expr.ids
  | none => ledger.pure rfl
  | some expr => by
    rw [Option.toList_some, List.flatMap_singleton]
    exact .map (expr.keeps h) fun _ => List.flatMap_singleton _ _

theorem Expr.keepsDims (h : ledger.Admits t) : (dims : List (Option Expr)) →
    ledger.Keeps (dims.flatMap fun dim => dim.toList.flatMap Expr.ids) (Expr.traverseDims t dims)
      fun dims => dims.flatMap fun dim => dim.toList.flatMap Expr.ids
  | [] => ledger.pure rfl
  | dim :: rest => .map₂ (Expr.keepsOption h dim) (Expr.keepsDims h rest) rfl fun _ _ => rfl

theorem Expr.keepsItems (h : ledger.Admits t) : (items : Option (List Expr)) →
    ledger.Keeps ((items.getD []).flatMap Expr.ids) (Expr.traverseItems t items)
      fun items => (items.getD []).flatMap Expr.ids
  | none => ledger.pure rfl
  | some items => .map (Expr.keepsList h items) fun _ => rfl

theorem LambdaBody.keeps (h : ledger.Admits t) :
    (body : LambdaBody) → ledger.Keeps body.ids (body.traverse t) LambdaBody.ids
  | .expr value => .map (value.keeps h) fun _ => rfl
  | .block body => .map (body.keeps h) fun _ => rfl

theorem Block.keeps (h : ledger.Admits t) :
    (body : Block) → ledger.Keeps body.ids (body.traverse t) Block.ids
  | ⟨stmts, endComments, closing⟩ => by
    rw [Block.ids_mk]
    exact .map (Stmt.keepsList h stmts) fun _ => Block.ids_mk _ _ _

theorem Block.keepsOption (h : ledger.Admits t) : (body : Option Block) →
    ledger.Keeps (body.toList.flatMap Block.ids) (Block.traverseOption t body)
      fun body => body.toList.flatMap Block.ids
  | none => ledger.pure rfl
  | some body => by
    rw [Option.toList_some, List.flatMap_singleton]
    exact .map (body.keeps h) fun _ => List.flatMap_singleton _ _

theorem Stmt.keepsList (h : ledger.Admits t) : (stmts : List Stmt) →
    ledger.Keeps (stmts.flatMap Stmt.ids) (Stmt.traverseList t stmts)
      fun stmts => stmts.flatMap Stmt.ids
  | [] => ledger.pure rfl
  | stmt :: rest => .map₂ (stmt.keeps h) (Stmt.keepsList h rest) rfl fun _ _ => rfl

theorem Stmt.keeps (h : ledger.Admits t) :
    (stmt : Stmt) → ledger.Keeps stmt.ids (stmt.traverse t) Stmt.ids
  | ⟨_, _, kind⟩ => .map (kind.keeps h) fun _ => rfl

theorem StmtKind.keeps (h : ledger.Admits t) :
    (kind : StmtKind) → ledger.Keeps kind.ids (kind.traverse t) StmtKind.ids
  | .block body => .map (body.keeps h) fun _ => rfl
  | .localVar decl => .map (decl.keeps h) fun _ => rfl
  | .localClass decl => .map (decl.keeps h) fun _ => rfl
  | .expr value => .map (value.keeps h) fun _ => rfl
  | .ret value => by
    rw [StmtKind.ids_ret]
    exact .map (Expr.keepsOption h value) fun _ => StmtKind.ids_ret _
  | .ifElse cond yes none =>
    .map₂ (cond.keeps h) (yes.keeps h) (by simp) fun _ _ => by simp
  | .ifElse cond yes (some no) =>
    .map₃ (cond.keeps h) (yes.keeps h) (no.keeps h) (by simp) fun _ _ _ => by simp
  | .whileLoop cond body =>
    .map₂ (cond.keeps h) (body.keeps h) (StmtKind.ids_whileLoop _ _)
      fun _ _ => StmtKind.ids_whileLoop _ _
  | .doWhile body cond =>
    .map₂ (body.keeps h) (cond.keeps h) (StmtKind.ids_doWhile _ _)
      fun _ _ => StmtKind.ids_doWhile _ _
  | .forLoop init cond update body =>
    .map₄ (init.keeps h) (Expr.keepsOption h cond) (Expr.keepsList h update) (body.keeps h)
      (StmtKind.ids_forLoop _ _ _ _) fun _ _ _ _ => StmtKind.ids_forLoop _ _ _ _
  | .forEach var iterable body =>
    .map₃ (iterable.keeps h) (var.keeps h) (body.keeps h) (StmtKind.ids_forEach _ _ _)
      fun _ _ _ => StmtKind.ids_forEach _ _ _
  | .tryBlock resources body catches finallyBody =>
    .map₄ (Resource.keepsList h resources) (body.keeps h) (CatchClause.keepsList h catches)
      (Block.keepsOption h finallyBody) (StmtKind.ids_tryBlock _ _ _ _)
      fun _ _ _ _ => StmtKind.ids_tryBlock _ _ _ _
  | .throw value => .map (value.keeps h) fun _ => rfl
  | .breakTo _ => ledger.pure rfl
  | .continueTo _ => ledger.pure rfl
  | .switch selector cases =>
    .map₂ (selector.keeps h) (SwitchCase.keepsList h cases) (StmtKind.ids_switch _ _)
      fun _ _ => StmtKind.ids_switch _ _
  | .sync lock body =>
    .map₂ (lock.keeps h) (body.keeps h) (StmtKind.ids_sync _ _) fun _ _ => StmtKind.ids_sync _ _
  | .labeled _ body => .map (body.keeps h) fun _ => rfl
  | .assertion cond message =>
    .map₂ (cond.keeps h) (Expr.keepsOption h message) (StmtKind.ids_assertion _ _)
      fun _ _ => StmtKind.ids_assertion _ _
  | .empty => ledger.pure rfl

theorem ForInit.keeps (h : ledger.Admits t) :
    (init : ForInit) → ledger.Keeps init.ids (init.traverse t) ForInit.ids
  | .decl decl => .map (decl.keeps h) fun _ => rfl
  | .exprs values => by
    rw [ForInit.ids_exprs]
    exact .map (Expr.keepsList h values) fun _ => ForInit.ids_exprs _

theorem Resource.keepsList (h : ledger.Admits t) : (resources : List Resource) →
    ledger.Keeps (resources.flatMap Resource.ids) (Resource.traverseList t resources)
      fun resources => resources.flatMap Resource.ids
  | [] => ledger.pure rfl
  | .decl decl :: rest => .map₂ (decl.keeps h) (Resource.keepsList h rest) rfl fun _ _ => rfl
  | .expr value :: rest => .map₂ (value.keeps h) (Resource.keepsList h rest) rfl fun _ _ => rfl

theorem CatchClause.keepsList (h : ledger.Admits t) : (clauses : List CatchClause) →
    ledger.Keeps (clauses.flatMap CatchClause.ids) (CatchClause.traverseList t clauses)
      fun clauses => clauses.flatMap CatchClause.ids
  | [] => ledger.pure rfl
  | ⟨id, _, _, _, _, body⟩ :: rest =>
    .map₃ (h.decl id) (body.keeps h) (CatchClause.keepsList h rest) rfl fun _ _ _ => rfl

theorem SwitchCase.keepsList (h : ledger.Admits t) : (cases : List SwitchCase) →
    ledger.Keeps (cases.flatMap SwitchCase.ids) (SwitchCase.traverseList t cases)
      fun cases => cases.flatMap SwitchCase.ids
  | [] => ledger.pure rfl
  | ⟨_, labels, _, _, body⟩ :: rest =>
    .map₃ (Expr.keepsList h labels) (body.keeps h) (SwitchCase.keepsList h rest) (by simp)
      fun _ _ _ => by simp

theorem LocalVar.keeps (h : ledger.Admits t) :
    (decl : LocalVar) → ledger.Keeps decl.ids (decl.traverse t) LocalVar.ids
  | ⟨_, _, _, declarators⟩ => by
    rw [LocalVar.ids_mk]
    exact .map (Declarator.keepsList h declarators) fun _ => LocalVar.ids_mk _ _ _ _

theorem Declarator.keepsList (h : ledger.Admits t) : (declarators : List Declarator) →
    ledger.Keeps (declarators.flatMap Declarator.ids) (Declarator.traverseList t declarators)
      fun declarators => declarators.flatMap Declarator.ids
  | [] => ledger.pure rfl
  | ⟨id, _, _, init⟩ :: rest =>
    .map₃ (h.decl id) (Expr.keepsOption h init) (Declarator.keepsList h rest) rfl fun _ _ _ => rfl

theorem Member.keepsBody (h : ledger.Admits t) : (members : Option (List Member)) →
    ledger.Keeps ((members.getD []).flatMap Member.ids) (Member.traverseBody t members)
      fun members => (members.getD []).flatMap Member.ids
  | none => ledger.pure rfl
  | some members => .map (Member.keepsList h members) fun _ => rfl

theorem Member.keepsList (h : ledger.Admits t) : (members : List Member) →
    ledger.Keeps (members.flatMap Member.ids) (Member.traverseList t members)
      fun members => members.flatMap Member.ids
  | [] => ledger.pure rfl
  | member :: rest => .map₂ (member.keeps h) (Member.keepsList h rest) rfl fun _ _ => rfl

theorem Member.keeps (h : ledger.Admits t) :
    (member : Member) → ledger.Keeps member.ids (member.traverse t) Member.ids
  | .field decl => .map (decl.keeps h) fun _ => rfl
  | .method decl => .map (decl.keeps h) fun _ => rfl
  | .type decl => .map (decl.keeps h) fun _ => rfl
  | .initializer decl => by
    rw [Member.ids_initializer]
    exact .map (decl.keeps h) fun _ => Member.ids_initializer _

theorem FieldDecl.keeps (h : ledger.Admits t) :
    (decl : FieldDecl) → ledger.Keeps decl.ids (decl.traverse t) FieldDecl.ids
  | ⟨_, _, _, _, declarators, _⟩ => by
    rw [FieldDecl.ids_eq]
    exact .map (Declarator.keepsList h declarators) fun _ => FieldDecl.ids_eq _

theorem Method.keeps (h : ledger.Admits t) :
    (method : Method) → ledger.Keeps method.ids (method.traverse t) Method.ids
  | ⟨id, _, _, _, _, _, _, params, _, body⟩ =>
    .map₃ (h.decl id) (.mapM params (Param.keeps h)) (Block.keepsOption h body) (Method.ids_eq _)
      fun _ _ _ => Method.ids_eq _

theorem Initializer.keeps (h : ledger.Admits t) :
    (decl : Initializer) → ledger.Keeps decl.body.ids (decl.traverse t) fun decl => decl.body.ids
  | ⟨_, _, body⟩ => .map (body.keeps h) fun _ => rfl

theorem TypeDecl.keeps (h : ledger.Admits t) :
    (decl : TypeDecl) → ledger.Keeps decl.ids (decl.traverse t) TypeDecl.ids
  | ⟨id, _, _, _, _, _, _, _, _, constants, members, _, _⟩ =>
    .map₃ (h.decl id) (EnumConstant.keepsList h constants) (Member.keepsList h members)
      (TypeDecl.ids_eq _) fun _ _ _ => TypeDecl.ids_eq _

theorem EnumConstant.keepsList (h : ledger.Admits t) : (constants : List EnumConstant) →
    ledger.Keeps (constants.flatMap EnumConstant.ids) (EnumConstant.traverseList t constants)
      fun constants => constants.flatMap EnumConstant.ids
  | [] => ledger.pure rfl
  | ⟨_, _, _, args, body⟩ :: rest =>
    .map₃ (Expr.keepsItems h args) (Member.keepsBody h body) (EnumConstant.keepsList h rest)
      (by simp) fun _ _ _ => by simp
end

end Traversal

/-! ### Drawing from the supply -/

namespace Fresh

/-- The ledger of computations that draw from the supply and may use the visited identities for which `keep` holds. -/
def ledger (keep : NodeId → Bool) : Ledger Fresh where
  Keeps := fun visited make ids => ∀ next,
    Redrawn (visited.filter keep) next (ids (make.run next).1) (make.run next).2
  pure := fun hids _ => .of_perm (.of_eq hids)
  map := by
    intro α ε visited first ids₁ ids f hfirst hf next
    change Redrawn _ next (ids (f (first.run next).1)) (first.run next).2
    rw [hf]
    exact hfirst next
  map₂ := by
    intro α β ε visited visited₁ visited₂ first second ids₁ ids₂ ids f hfirst hsecond hvisited hf
      next
    subst hvisited
    change Redrawn _ next (ids (f (first.run next).1 (second.run (first.run next).2).1))
      (second.run (first.run next).2).2
    rw [hf, List.filter_append]
    exact ((hfirst next).frameRight _).trans ((hsecond _).frame _)

/-- The ledger of computations that also count something. -/
def countingLedger (keep : NodeId → Bool) : Ledger (StateT Nat Fresh) where
  Keeps := fun visited make ids => ∀ count : Nat,
    (ledger keep).Keeps visited (make.run count) fun result => ids result.1
  pure := fun hids _ => (ledger keep).pure hids
  map := by
    intro α ε visited first ids₁ ids f hfirst hf count next
    change Redrawn _ next (ids (f ((first.run count).run next).1.1)) ((first.run count).run next).2
    rw [hf]
    exact hfirst count next
  map₂ := by
    intro α β ε visited visited₁ visited₂ first second ids₁ ids₂ ids f hfirst hsecond hvisited hf
      count next
    subst hvisited
    have hfirst := hfirst count next
    have hsecond := hsecond ((first.run count).run next).1.2 ((first.run count).run next).2
    rw [List.filter_append]
    have hboth := (hfirst.frameRight _).trans (hsecond.frame _)
    rwa [← hf] at hboth

/-- Whether an edit that draws from the supply makes the identities of its result out of those held before. -/
def Keeps {α : Type} (held : List NodeId) (make : Fresh α) (ids : α → List NodeId) : Prop :=
  ∀ next, Redrawn held next (ids (make.run next).1) (make.run next).2

variable {α β : Type} {held : List NodeId} {make : Fresh α} {ids : α → List NodeId}

theorem Keeps.pure {value : α} (h : (ids value).Perm held) : Keeps held (pure value) ids :=
  fun _ => .of_perm h

theorem Keeps.of_count_le {value : α} (h : ∀ id : Nat, (ids value).count id ≤ held.count id) :
    Keeps held (Pure.pure value) ids :=
  fun _ => .of_count_le h

/-- Not all of what is held need be used. -/
theorem Keeps.narrow {held' : List NodeId} (h : Keeps held' make ids) (hsub : held'.Sublist held) :
    Keeps held make ids :=
  fun _ => Redrawn.trans (.of_sublist hsub) (h _)

theorem Keeps.andThen {use : α → Fresh β} {ids' : β → List NodeId} (h : Keeps held make ids)
    (huse : ∀ value, Keeps (ids value) (use value) ids') : Keeps held (make >>= use) ids' :=
  fun next => (h next).trans (huse _ _)

theorem Keeps.frame (h : Keeps held make ids) (others : List NodeId) :
    Keeps (others ++ held) make fun value => others ++ ids value :=
  fun next => (h next).frame others

/-- A computation after one that draws its result from the supply. -/
theorem Keeps.bind {use : α → Fresh β} {ids' : β → List NodeId} (h : Keeps [] make ids)
    (huse : ∀ value, Keeps (held ++ ids value) (use value) ids') : Keeps held (make >>= use) ids' := by
  have hframe := h.frame held
  rw [List.append_nil] at hframe
  exact hframe.andThen huse

end Fresh

theorem Fresh.keeps_id : Fresh.Keeps [] Fresh.id fun id => [id] := Redrawn.draw

theorem Expr.keeps_fresh (name : String) : Fresh.Keeps [] (Expr.fresh name) Expr.ids := Redrawn.draw

/-- The identities of a copy are drawn from the supply. -/
theorem Expr.keeps_freshCopy (expr : Expr) : Fresh.Keeps [] expr.freshCopy Expr.ids := by
  have hadmits : (Fresh.ledger fun _ => false).Admits .renumber :=
    ⟨fun _ => Redrawn.draw, fun _ _ => Redrawn.draw⟩
  intro next
  have hkeeps := expr.keeps hadmits next
  rwa [List.filter_false] at hkeeps

end AdviceMigration.Source
