import AdviceMigration.Proofs.Source.Weaving

/-!
# Respelling names

A tree whose name occurrences are spelled anew: each becomes another name, or a field reached from one. Nothing else changes, so the events of the new tree are those of the old one with the uses spelled anew, and two respellings in turn are one.
-/

namespace AdviceMigration.Source

open AdviceMigration.Scope

/-- A name occurrence with the fields that are read from it, first to last. -/
structure Spelled where
  id : NodeId
  name : String
  fields : List String
  deriving DecidableEq

namespace Spelled

/-- The expression that reads fields one after the other. -/
def toExpr (spelled : Spelled) : Expr :=
  spelled.fields.foldl .field (.name spelled.id spelled.name)

/-- Reads more fields. -/
def thenFields (spelled : Spelled) (fields : List String) : Spelled :=
  { spelled with fields := spelled.fields ++ fields }

theorem toExpr_eq_name_iff {spelled : Spelled} {id : NodeId} {name : String} :
    spelled.toExpr = .name id name ↔ spelled = ⟨id, name, []⟩ := by
  obtain ⟨id', name', fields⟩ := spelled
  rcases List.eq_nil_or_concat fields with rfl | ⟨before, last, rfl⟩
  · simp [toExpr]
  · simp [toExpr]

theorem events_foldl_field (fields : List String) (expr : Expr) :
    (fields.foldl .field expr).events = expr.events := by
  induction fields generalizing expr with
  | nil => rfl
  | cons field rest ih => exact ih (.field expr field)

theorem events_toExpr (spelled : Spelled) :
    spelled.toExpr.events = [.use .read spelled.name spelled.id] :=
  events_foldl_field spelled.fields _

end Spelled

/-- How each name occurrence is spelled anew. -/
abbrev Spelling := NodeId → String → Spelled

namespace Spelling

/-- Names as they are. -/
def same : Spelling := fun id name => ⟨id, name, []⟩

/-- One spelling after the other. -/
def comp (first second : Spelling) : Spelling := fun id name =>
  let spelled := first id name
  (second spelled.id spelled.name).thenFields spelled.fields

/-- The traversal that spells names anew. -/
def traversal (spelling : Spelling) : Traversal Id where
  decl := fun id => pure id
  name := fun id name => pure (spelling id name).toExpr

end Spelling

end AdviceMigration.Source

namespace AdviceMigration.Scope

open AdviceMigration.Source

/-- What an event says once names are spelled anew. A name from which a field is read is not written itself. -/
def Event.respell (spelling : Spelling) : Event → Event
  | .use role name id =>
    match spelling id name with
    | ⟨id', name', []⟩ => .use role name' id'
    | ⟨id', name', _ :: _⟩ => .use .read name' id'
  | .hold => .hold
  | .open => .open
  | .release => .release
  | .swap => .swap
  | .bind binder name id => .bind binder name id
  | .effect => .effect

attribute [simp] Event.respell

end AdviceMigration.Scope

namespace AdviceMigration.Source

open AdviceMigration.Scope

/-! ### Trees spelled anew -/

/-- The block with its names spelled anew. -/
def Block.respell (spelling : Spelling) (body : Block) : Block :=
  Id.run (body.traverse spelling.traversal)

@[simp] theorem respell_map_bind {α : Type} (spelling : Spelling) (binder : Binder)
    (name : α → String) (id : α → NodeId) (items : List α) :
    (items.map fun item => .bind binder (name item) (id item)).map (Event.respell spelling) =
      items.map fun item => .bind binder (name item) (id item) := by
  simp

@[simp] theorem run_traverse_lambdaParam (spelling : Spelling) (param : LambdaParam) :
    Id.run (param.traverse spelling.traversal) = param := rfl

theorem run_traverse_lambdaParams (spelling : Spelling) (params : List LambdaParam) :
    Id.run (params.mapM (LambdaParam.traverse spelling.traversal)) = params := by
  simp

@[simp] theorem run_traverse_param (spelling : Spelling) (param : Param) :
    Id.run (param.traverse spelling.traversal) = param := by
  cases param
  rfl

theorem run_traverse_params (spelling : Spelling) (params : List Param) :
    Id.run (params.mapM (Param.traverse spelling.traversal)) = params := by
  simp

@[simp] theorem run_traversal_name (spelling : Spelling) (id : NodeId) (name : String) :
    Id.run (spelling.traversal.name id name) = (spelling id name).toExpr := rfl

/-- Spelling anew puts one name in place of another. -/
theorem Spelled.eventsAs_toExpr (spelling : Spelling) (role : Role) (id : NodeId) (name : String) :
    (spelling id name).toExpr.eventsAs role = [Event.respell spelling (.use role name id)] := by
  rw [Event.respell]
  generalize spelling id name = spelled
  obtain ⟨id', name', fields⟩ := spelled
  have hevents := events_toExpr ⟨id', name', fields⟩
  rcases List.eq_nil_or_concat fields with rfl | ⟨before, last, rfl⟩
  · cases role <;> rfl
  · cases role <;> cases before <;> simpa [toExpr, Expr.eventsAs] using hevents

theorem Spelling.weaves (spelling : Spelling) :
    spelling.traversal.Weaves (· = ·) fun id name expr => expr = (spelling id name).toExpr :=
  ⟨fun _ => .pure rfl, fun _ _ => .pure rfl⟩

theorem Woven.eq_map_respell {spelling : Spelling} {events events' : List Event}
    (h : Woven (· = ·) (fun id name expr => expr = (spelling id name).toExpr) events events') :
    events' = events.map (Event.respell spelling) := by
  induction h with
  | nil => rfl
  | cons hevent _ ih =>
    rw [ih, List.map_cons]
    cases hevent with
    | use hexpr =>
      subst hexpr
      rw [Spelled.eventsAs_toExpr, List.singleton_append]
    | bind hid =>
      subst hid
      rfl
    | _ => rfl

/-! ### Spelling anew in turn -/

/-- Whether a traversal that spells names anew leaves a part as it is under `same`, and takes two spellings in turn as one. -/
def Composes {α : Type} (traverse : Traversal Id → α → Id α) (part : α) : Prop :=
  Id.run (traverse Spelling.same.traversal part) = part ∧ ∀ first second : Spelling,
    Id.run (traverse second.traversal (Id.run (traverse first.traversal part))) =
      Id.run (traverse (first.comp second).traversal part)

section Nodes

variable {α β γ δ ε : Type} {traverse₁ : Traversal Id → α → Id α} {traverse₂ : Traversal Id → β → Id β}
  {traverse₃ : Traversal Id → γ → Id γ} {traverse₄ : Traversal Id → δ → Id δ}
  {whole : Traversal Id → ε → Id ε} {a : α} {b : β} {c : γ} {d : δ}

/-- A node composes if its traversal only traverses its one part. -/
theorem Composes.node (ha : Composes traverse₁ a) (node : α → ε)
    (hnode : ∀ (spelling : Spelling) (a : α), Id.run (whole spelling.traversal (node a)) =
      node (Id.run (traverse₁ spelling.traversal a))) : Composes whole (node a) := by
  refine ⟨?_, fun first second => ?_⟩
  · rw [hnode, ha.1]
  · rw [hnode, hnode, hnode, ha.2]

/-- Two parts that are traversed next to each other compose like one. -/
theorem Composes.both (ha : Composes traverse₁ a) (hb : Composes traverse₂ b) :
    Composes (fun t part => (Id.run (traverse₁ t part.1), Id.run (traverse₂ t part.2))) (a, b) :=
  ⟨congrArg₂ Prod.mk ha.1 hb.1, fun first second =>
    congrArg₂ Prod.mk (ha.2 first second) (hb.2 first second)⟩

theorem Composes.node₂ (ha : Composes traverse₁ a) (hb : Composes traverse₂ b) (node : α → β → ε)
    (hnode : ∀ (spelling : Spelling) (a : α) (b : β), Id.run (whole spelling.traversal (node a b)) =
      node (Id.run (traverse₁ spelling.traversal a)) (Id.run (traverse₂ spelling.traversal b))) :
    Composes whole (node a b) :=
  (ha.both hb).node (fun part => node part.1 part.2) fun spelling part => hnode spelling part.1 part.2

theorem Composes.node₃ (ha : Composes traverse₁ a) (hb : Composes traverse₂ b) (hc : Composes traverse₃ c)
    (node : α → β → γ → ε)
    (hnode : ∀ (spelling : Spelling) (a : α) (b : β) (c : γ),
      Id.run (whole spelling.traversal (node a b c)) =
        node (Id.run (traverse₁ spelling.traversal a)) (Id.run (traverse₂ spelling.traversal b))
          (Id.run (traverse₃ spelling.traversal c))) : Composes whole (node a b c) :=
  ha.node₂ (hb.both hc) (fun a part => node a part.1 part.2) fun spelling a part =>
    hnode spelling a part.1 part.2

theorem Composes.node₄ (ha : Composes traverse₁ a) (hb : Composes traverse₂ b) (hc : Composes traverse₃ c)
    (hd : Composes traverse₄ d) (node : α → β → γ → δ → ε)
    (hnode : ∀ (spelling : Spelling) (a : α) (b : β) (c : γ) (d : δ),
      Id.run (whole spelling.traversal (node a b c d)) =
        node (Id.run (traverse₁ spelling.traversal a)) (Id.run (traverse₂ spelling.traversal b))
          (Id.run (traverse₃ spelling.traversal c)) (Id.run (traverse₄ spelling.traversal d))) :
    Composes whole (node a b c d) :=
  ha.node₃ hb (hc.both hd) (fun a b part => node a b part.1 part.2) fun spelling a b part =>
    hnode spelling a b part.1 part.2

end Nodes

theorem Expr.traverse_foldl_field (t : Traversal Id) (fields : List String) (expr : Expr) :
    Id.run ((fields.foldl .field expr).traverse t) =
      fields.foldl .field (Id.run (expr.traverse t)) := by
  induction fields generalizing expr with
  | nil => rfl
  | cons field rest ih => exact ih (.field expr field)

theorem Expr.composes_name (id : NodeId) (name : String) :
    Composes Expr.traverse (.name id name) := by
  refine ⟨rfl, fun first second => ?_⟩
  have hname : ∀ (spelling : Spelling) (id : NodeId) (name : String),
      Id.run (Expr.traverse spelling.traversal (.name id name)) = (spelling id name).toExpr :=
    fun _ _ _ => rfl
  rw [hname, hname, Spelled.toExpr, Expr.traverse_foldl_field, hname, Spelling.comp,
    Spelled.thenFields, Spelled.toExpr, Spelled.toExpr, List.foldl_append]

mutual
theorem Expr.composes : (part : Expr) → Composes Expr.traverse part
  | .name id name => Expr.composes_name id name
  | .literal _ => ⟨rfl, fun _ _ => rfl⟩
  | .field receiver name => receiver.composes.node (Expr.field · name) fun _ _ => rfl
  | .call none typeArgs name args =>
    (Expr.composesList args).node (Expr.call none typeArgs name) fun _ _ => rfl
  | .call (some receiver) typeArgs name args =>
    receiver.composes.node₂ (Expr.composesList args)
      (fun receiver args => Expr.call (some receiver) typeArgs name args) fun _ _ _ => rfl
  | .index array index => array.composes.node₂ index.composes Expr.index fun _ _ _ => rfl
  | .assign target op value =>
    target.composes.node₂ value.composes (Expr.assign · op ·) fun _ _ _ => rfl
  | .binary op left right => left.composes.node₂ right.composes (Expr.binary op) fun _ _ _ => rfl
  | .unary op operand => operand.composes.node (Expr.unary op) fun _ _ => rfl
  | .conditional cond yes no =>
    cond.composes.node₃ yes.composes no.composes Expr.conditional fun _ _ _ _ => rfl
  | .cast type operand => operand.composes.node (Expr.cast type) fun _ _ => rfl
  | .instanceOf operand type none => operand.composes.node (Expr.instanceOf · type none) fun _ _ => rfl
  | .instanceOf operand type (some binding) =>
    operand.composes.node (Expr.instanceOf · type (some binding)) fun _ _ => rfl
  | .new outer type args body =>
    (Expr.composesOption outer).node₃ (Expr.composesList args) (Member.composesBody body)
      (fun outer args body => Expr.new outer type args body) fun _ _ _ _ => rfl
  | .newArray element dims init =>
    (Expr.composesDims dims).node₂ (Expr.composesItems init) (Expr.newArray element) fun _ _ _ => rfl
  | .arrayInit items => (Expr.composesList items).node Expr.arrayInit fun _ _ => rfl
  | .lambda params parenthesized body =>
    body.composes.node (Expr.lambda params parenthesized) fun spelling _ =>
      congrArg (Expr.lambda · parenthesized _) (run_traverse_lambdaParams spelling params)
  | .methodRef target name => target.composes.node (Expr.methodRef · name) fun _ _ => rfl
  | .classLiteral _ => ⟨rfl, fun _ _ => rfl⟩
  | .this => ⟨rfl, fun _ _ => rfl⟩
  | .super => ⟨rfl, fun _ _ => rfl⟩
  | .paren inner => inner.composes.node Expr.paren fun _ _ => rfl
  | .typeName _ => ⟨rfl, fun _ _ => rfl⟩

theorem Expr.composesList : (part : List Expr) → Composes Expr.traverseList part
  | [] => ⟨rfl, fun _ _ => rfl⟩
  | expr :: rest => expr.composes.node₂ (Expr.composesList rest) List.cons fun _ _ _ => rfl

theorem Expr.composesOption : (part : Option Expr) → Composes Expr.traverseOption part
  | none => ⟨rfl, fun _ _ => rfl⟩
  | some expr => expr.composes.node some fun _ _ => rfl

theorem Expr.composesDims : (part : List (Option Expr)) → Composes Expr.traverseDims part
  | [] => ⟨rfl, fun _ _ => rfl⟩
  | dim :: rest => (Expr.composesOption dim).node₂ (Expr.composesDims rest) List.cons fun _ _ _ => rfl

theorem Expr.composesItems : (part : Option (List Expr)) → Composes Expr.traverseItems part
  | none => ⟨rfl, fun _ _ => rfl⟩
  | some items => (Expr.composesList items).node some fun _ _ => rfl

theorem LambdaBody.composes : (part : LambdaBody) → Composes LambdaBody.traverse part
  | .expr value => value.composes.node LambdaBody.expr fun _ _ => rfl
  | .block body => body.composes.node LambdaBody.block fun _ _ => rfl

theorem Block.composes : (part : Block) → Composes Block.traverse part
  | ⟨stmts, endComments, closing⟩ =>
    (Stmt.composesList stmts).node (Block.mk · endComments closing) fun _ _ => rfl

theorem Block.composesOption : (part : Option Block) → Composes Block.traverseOption part
  | none => ⟨rfl, fun _ _ => rfl⟩
  | some body => body.composes.node some fun _ _ => rfl

theorem Stmt.composesList : (part : List Stmt) → Composes Stmt.traverseList part
  | [] => ⟨rfl, fun _ _ => rfl⟩
  | stmt :: rest => stmt.composes.node₂ (Stmt.composesList rest) List.cons fun _ _ _ => rfl

theorem Stmt.composes : (part : Stmt) → Composes Stmt.traverse part
  | ⟨layout, trailing, kind⟩ => kind.composes.node (Stmt.mk layout trailing) fun _ _ => rfl

theorem StmtKind.composes : (part : StmtKind) → Composes StmtKind.traverse part
  | .block body => body.composes.node StmtKind.block fun _ _ => rfl
  | .localVar decl => decl.composes.node StmtKind.localVar fun _ _ => rfl
  | .localClass decl => decl.composes.node StmtKind.localClass fun _ _ => rfl
  | .expr value => value.composes.node StmtKind.expr fun _ _ => rfl
  | .ret value => (Expr.composesOption value).node StmtKind.ret fun _ _ => rfl
  | .ifElse cond yes none =>
    cond.composes.node₂ yes.composes (StmtKind.ifElse · · none) fun _ _ _ => rfl
  | .ifElse cond yes (some no) =>
    cond.composes.node₃ yes.composes no.composes
      (fun cond yes no => StmtKind.ifElse cond yes (some no)) fun _ _ _ _ => rfl
  | .whileLoop cond body => cond.composes.node₂ body.composes StmtKind.whileLoop fun _ _ _ => rfl
  | .doWhile body cond => body.composes.node₂ cond.composes StmtKind.doWhile fun _ _ _ => rfl
  | .forLoop init cond update body =>
    init.composes.node₄ (Expr.composesOption cond) (Expr.composesList update) body.composes
      StmtKind.forLoop fun _ _ _ _ _ => rfl
  | .forEach ⟨id, annotations, modifiers, type, name⟩ iterable body =>
    iterable.composes.node₂ body.composes
      (StmtKind.forEach ⟨id, annotations, modifiers, type, name⟩) fun _ _ _ => rfl
  | .tryBlock resources body catches finallyBody =>
    (Resource.composesList resources).node₄ body.composes (CatchClause.composesList catches)
      (Block.composesOption finallyBody) StmtKind.tryBlock fun _ _ _ _ _ => rfl
  | .throw value => value.composes.node StmtKind.throw fun _ _ => rfl
  | .breakTo _ => ⟨rfl, fun _ _ => rfl⟩
  | .continueTo _ => ⟨rfl, fun _ _ => rfl⟩
  | .switch selector cases =>
    selector.composes.node₂ (SwitchCase.composesList cases) StmtKind.switch fun _ _ _ => rfl
  | .sync lock body => lock.composes.node₂ body.composes StmtKind.sync fun _ _ _ => rfl
  | .labeled label body => body.composes.node (StmtKind.labeled label) fun _ _ => rfl
  | .assertion cond message =>
    cond.composes.node₂ (Expr.composesOption message) StmtKind.assertion fun _ _ _ => rfl
  | .empty => ⟨rfl, fun _ _ => rfl⟩

theorem ForInit.composes : (part : ForInit) → Composes ForInit.traverse part
  | .decl decl => decl.composes.node ForInit.decl fun _ _ => rfl
  | .exprs values => (Expr.composesList values).node ForInit.exprs fun _ _ => rfl

theorem Resource.composesList : (part : List Resource) → Composes Resource.traverseList part
  | [] => ⟨rfl, fun _ _ => rfl⟩
  | .decl decl :: rest =>
    decl.composes.node₂ (Resource.composesList rest) (fun decl rest => Resource.decl decl :: rest)
      fun _ _ _ => rfl
  | .expr value :: rest =>
    value.composes.node₂ (Resource.composesList rest) (fun value rest => Resource.expr value :: rest)
      fun _ _ _ => rfl

theorem CatchClause.composesList : (part : List CatchClause) →
    Composes CatchClause.traverseList part
  | [] => ⟨rfl, fun _ _ => rfl⟩
  | ⟨id, annotations, modifiers, types, name, body⟩ :: rest =>
    body.composes.node₂ (CatchClause.composesList rest)
      (fun body rest => ⟨id, annotations, modifiers, types, name, body⟩ :: rest) fun _ _ _ => rfl

theorem SwitchCase.composesList : (part : List SwitchCase) → Composes SwitchCase.traverseList part
  | [] => ⟨rfl, fun _ _ => rfl⟩
  | ⟨comments, labels, isDefault, form, body⟩ :: rest =>
    (Expr.composesList labels).node₃ body.composes (SwitchCase.composesList rest)
      (fun labels body rest => ⟨comments, labels, isDefault, form, body⟩ :: rest) fun _ _ _ _ => rfl

theorem LocalVar.composes : (part : LocalVar) → Composes LocalVar.traverse part
  | ⟨annotations, modifiers, type, declarators⟩ =>
    (Declarator.composesList declarators).node (LocalVar.mk annotations modifiers type) fun _ _ => rfl

theorem Declarator.composesList : (part : List Declarator) → Composes Declarator.traverseList part
  | [] => ⟨rfl, fun _ _ => rfl⟩
  | ⟨id, name, dims, init⟩ :: rest =>
    (Expr.composesOption init).node₂ (Declarator.composesList rest)
      (fun init rest => ⟨id, name, dims, init⟩ :: rest) fun _ _ _ => rfl

theorem Member.composesBody : (part : Option (List Member)) → Composes Member.traverseBody part
  | none => ⟨rfl, fun _ _ => rfl⟩
  | some members => (Member.composesList members).node some fun _ _ => rfl

theorem Member.composesList : (part : List Member) → Composes Member.traverseList part
  | [] => ⟨rfl, fun _ _ => rfl⟩
  | member :: rest => member.composes.node₂ (Member.composesList rest) List.cons fun _ _ _ => rfl

theorem Member.composes : (part : Member) → Composes Member.traverse part
  | .field decl => decl.composes.node Member.field fun _ _ => rfl
  | .method decl => decl.composes.node Member.method fun _ _ => rfl
  | .type decl => decl.composes.node Member.type fun _ _ => rfl
  | .initializer decl => decl.composes.node Member.initializer fun _ _ => rfl

theorem FieldDecl.composes : (part : FieldDecl) → Composes FieldDecl.traverse part
  | ⟨layout, annotations, modifiers, type, declarators, trailing⟩ =>
    (Declarator.composesList declarators).node
      (FieldDecl.mk layout annotations modifiers type · trailing) fun _ _ => rfl

theorem Method.composes : (part : Method) → Composes Method.traverse part
  | ⟨id, layout, annotations, modifiers, typeParams, returnType, name, params, throws, body⟩ =>
    (Block.composesOption body).node
      (Method.mk id layout annotations modifiers typeParams returnType name params throws)
      fun spelling _ =>
        congrArg (Method.mk id layout annotations modifiers typeParams returnType name · throws _)
          (run_traverse_params spelling params)

theorem Initializer.composes : (part : Initializer) → Composes Initializer.traverse part
  | ⟨layout, isStatic, body⟩ => body.composes.node (Initializer.mk layout isStatic) fun _ _ => rfl

theorem TypeDecl.composes : (part : TypeDecl) → Composes TypeDecl.traverse part
  | ⟨id, layout, annotations, modifiers, kind, name, typeParams, superTypes, interfaces, constants,
      members, endComments, closing⟩ =>
    (EnumConstant.composesList constants).node₂ (Member.composesList members)
      (TypeDecl.mk id layout annotations modifiers kind name typeParams superTypes interfaces · ·
        endComments closing) fun _ _ _ => rfl

theorem EnumConstant.composesList : (part : List EnumConstant) →
    Composes EnumConstant.traverseList part
  | [] => ⟨rfl, fun _ _ => rfl⟩
  | ⟨comments, annotations, name, args, body⟩ :: rest =>
    (Expr.composesItems args).node₃ (Member.composesBody body) (EnumConstant.composesList rest)
      (fun args body rest => ⟨comments, annotations, name, args, body⟩ :: rest) fun _ _ _ _ => rfl
end

namespace Block

theorem events_respell (spelling : Spelling) (body : Block) :
    (body.respell spelling).events = body.events.map (Event.respell spelling) :=
  (body.weaves spelling.weaves).run_id.1.eq_map_respell

theorem innerEvents_respell (spelling : Spelling) (body : Block) :
    (body.respell spelling).innerEvents = body.innerEvents.map (Event.respell spelling) :=
  (body.weaves spelling.weaves).run_id.2.eq_map_respell

theorem respell_same (body : Block) : body.respell .same = body := body.composes.1

theorem respell_respell (first second : Spelling) (body : Block) :
    (body.respell first).respell second = body.respell (first.comp second) :=
  body.composes.2 first second

end Block

theorem namesOf_respell (spelling : Spelling) (events : List Event) :
    namesOf (events.map (Event.respell spelling)) = (namesOf events).map fun occurrence =>
      ((spelling occurrence.1 occurrence.2).id, (spelling occurrence.1 occurrence.2).name) := by
  induction events with
  | nil => rfl
  | cons event rest ih =>
    cases event with
    | use role name id =>
      rw [List.map_cons, Event.respell]
      split <;> simp_all
    | _ => simpa using ih

end AdviceMigration.Source
