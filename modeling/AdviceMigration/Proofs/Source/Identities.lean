import AdviceMigration.Proofs.Source.Mentions
import AdviceMigration.Proofs.Source.Paths

/-!
# Identities of trees

The identities of the declarations and name occurrences of a tree, in the order of the traversal. Those of a node are those of its parts one after the other; comments, annotations, modifiers and types have none. An edit at a path exchanges the identities of one part for those of another.
-/

namespace AdviceMigration.Source

/-- The identities that a traversal visits, in order. -/
def idsOf {α : Type} (visitor : Visitor α) : List NodeId := (visitedBy visitor).map Mention.id

section Visitor

variable {α β γ δ ε : Type} {first : Visitor α} {second : Visitor β} {third : Visitor γ}
  {fourth : Visitor δ} {events₁ events₂ events₃ events₄ : List Scope.Event}

theorem Traced.idsOf_map₂ (f : α → β → γ) (hfirst : Traced first events₁)
    (hsecond : Traced second events₂) :
    idsOf (fun m _ t => do
      let a ← first m t
      return f a (← second m t)) = idsOf first ++ idsOf second := by
  rw [idsOf, hfirst.visitedBy_map₂ f hsecond, List.map_append]
  rfl

theorem Traced.idsOf_map₃ (f : α → β → γ → δ) (hfirst : Traced first events₁)
    (hsecond : Traced second events₂) (hthird : Traced third events₃) :
    idsOf (fun m _ t => do
      let a ← first m t
      let b ← second m t
      return f a b (← third m t)) = idsOf first ++ (idsOf second ++ idsOf third) := by
  rw [idsOf, hfirst.visitedBy_map₃ f hsecond hthird, List.map_append, List.map_append]
  rfl

theorem Traced.idsOf_map₄ (f : α → β → γ → δ → ε) (hfirst : Traced first events₁)
    (hsecond : Traced second events₂) (hthird : Traced third events₃)
    (hfourth : Traced fourth events₄) :
    idsOf (fun m _ t => do
      let a ← first m t
      let b ← second m t
      let c ← third m t
      return f a b c (← fourth m t)) =
      idsOf first ++ (idsOf second ++ (idsOf third ++ idsOf fourth)) := by
  change (((fourth _ .collect).run ((third _ .collect).run ((second _ .collect).run
    ((first (StateM (List Mention)) .collect).run []).2).2).2).2.reverse).map Mention.id = _
  rw [hfirst.run_collect, hsecond.run_collect, hthird.run_collect, hfourth.run_collect]
  simp [idsOf]

end Visitor

/-! ### Identities by kind of node -/

def Expr.ids (expr : Expr) : List NodeId := idsOf fun _ _ t => expr.traverse t

def Expr.idsDims (dims : List (Option Expr)) : List NodeId :=
  idsOf fun _ _ t => Expr.traverseDims t dims

def LambdaBody.ids (body : LambdaBody) : List NodeId := idsOf fun _ _ t => body.traverse t

def Block.ids (body : Block) : List NodeId := idsOf fun _ _ t => body.traverse t

def Stmt.ids (stmt : Stmt) : List NodeId := idsOf fun _ _ t => stmt.traverse t

def StmtKind.ids (kind : StmtKind) : List NodeId := idsOf fun _ _ t => kind.traverse t

def ForInit.ids (init : ForInit) : List NodeId := idsOf fun _ _ t => init.traverse t

def Resource.ids (resource : Resource) : List NodeId :=
  match resource with
  | .decl inner => idsOf fun _ _ t => inner.traverse t
  | .expr value => value.ids

def CatchClause.ids (clause : CatchClause) : List NodeId := clause.id :: clause.body.ids

def SwitchCase.ids (case : SwitchCase) : List NodeId := case.labels.flatMap Expr.ids ++ case.body.ids

def LocalVar.ids (decl : LocalVar) : List NodeId := idsOf fun _ _ t => decl.traverse t

def Declarator.ids (declarator : Declarator) : List NodeId :=
  declarator.id :: declarator.init.toList.flatMap Expr.ids

def Member.ids (member : Member) : List NodeId := idsOf fun _ _ t => member.traverse t

def FieldDecl.ids (decl : FieldDecl) : List NodeId := idsOf fun _ _ t => decl.traverse t

def Method.ids (method : Method) : List NodeId := idsOf fun _ _ t => method.traverse t

def TypeDecl.ids (decl : TypeDecl) : List NodeId := idsOf fun _ _ t => decl.traverse t

def EnumConstant.ids (constant : EnumConstant) : List NodeId :=
  (constant.args.getD []).flatMap Expr.ids ++ (constant.body.getD []).flatMap Member.ids

/-! ### Lists and missing parts -/

theorem Expr.idsOf_traverseList (exprs : List Expr) :
    idsOf (fun _ _ t => Expr.traverseList t exprs) = exprs.flatMap Expr.ids := by
  induction exprs with
  | nil => rfl
  | cons expr rest ih =>
    rw [List.flatMap_cons, ← ih]
    exact expr.traverse_traced.idsOf_map₂ List.cons (Expr.traverseList_traced rest)

theorem Expr.idsOf_traverseOption (expr : Option Expr) :
    idsOf (fun _ _ t => Expr.traverseOption t expr) = expr.toList.flatMap Expr.ids := by
  cases expr with
  | none => rfl
  | some expr => exact (List.append_nil _).symm

theorem Expr.idsDims_eq (dims : List (Option Expr)) :
    Expr.idsDims dims = dims.flatMap fun dim => dim.toList.flatMap Expr.ids := by
  induction dims with
  | nil => rfl
  | cons dim rest ih =>
    rw [List.flatMap_cons, ← ih, ← Expr.idsOf_traverseOption]
    exact (Expr.traverseOption_traced dim).idsOf_map₂ List.cons (Expr.traverseDims_traced rest)

theorem Expr.idsOf_traverseItems (items : Option (List Expr)) :
    idsOf (fun _ _ t => Expr.traverseItems t items) = (items.getD []).flatMap Expr.ids := by
  cases items with
  | none => rfl
  | some items => exact Expr.idsOf_traverseList items

theorem Block.idsOf_traverseOption (body : Option Block) :
    idsOf (fun _ _ t => Block.traverseOption t body) = body.toList.flatMap Block.ids := by
  cases body with
  | none => rfl
  | some body => exact (List.append_nil _).symm

theorem Stmt.idsOf_traverseList (stmts : List Stmt) :
    idsOf (fun _ _ t => Stmt.traverseList t stmts) = stmts.flatMap Stmt.ids := by
  induction stmts with
  | nil => rfl
  | cons stmt rest ih =>
    rw [List.flatMap_cons, ← ih]
    exact stmt.traverse_traced.idsOf_map₂ List.cons (Stmt.traverseList_traced rest)

theorem Member.idsOf_traverseList (members : List Member) :
    idsOf (fun _ _ t => Member.traverseList t members) = members.flatMap Member.ids := by
  induction members with
  | nil => rfl
  | cons member rest ih =>
    rw [List.flatMap_cons, ← ih]
    exact member.traverse_traced.idsOf_map₂ List.cons (Member.traverseList_traced rest)

theorem Member.idsOf_traverseBody (members : Option (List Member)) :
    idsOf (fun _ _ t => Member.traverseBody t members) = (members.getD []).flatMap Member.ids := by
  cases members with
  | none => rfl
  | some members => exact Member.idsOf_traverseList members

theorem Resource.idsOf_traverseList (resources : List Resource) :
    idsOf (fun _ _ t => Resource.traverseList t resources) = resources.flatMap Resource.ids := by
  induction resources with
  | nil => rfl
  | cons resource rest ih =>
    rw [List.flatMap_cons, ← ih]
    cases resource with
    | decl inner =>
      exact inner.traverse_traced.idsOf_map₂ (fun inner rest => .decl inner :: rest)
        (Resource.traverseList_traced rest)
    | expr value =>
      exact value.traverse_traced.idsOf_map₂ (fun value rest => .expr value :: rest)
        (Resource.traverseList_traced rest)

theorem CatchClause.idsOf_traverseList (clauses : List CatchClause) :
    idsOf (fun _ _ t => CatchClause.traverseList t clauses) = clauses.flatMap CatchClause.ids := by
  induction clauses with
  | nil => rfl
  | cons clause rest ih =>
    obtain ⟨id, annotations, modifiers, types, name, body⟩ := clause
    rw [List.flatMap_cons, ← ih]
    exact (Traced.silent id).idsOf_map₃
      (fun id body rest => (⟨id, annotations, modifiers, types, name, body⟩ : CatchClause) :: rest)
      body.traverse_traced (CatchClause.traverseList_traced rest)

theorem SwitchCase.idsOf_traverseList (cases : List SwitchCase) :
    idsOf (fun _ _ t => SwitchCase.traverseList t cases) = cases.flatMap SwitchCase.ids := by
  induction cases with
  | nil => rfl
  | cons case rest ih =>
    obtain ⟨comments, labels, isDefault, form, body⟩ := case
    rw [List.flatMap_cons, ← ih, SwitchCase.ids, List.append_assoc, ← Expr.idsOf_traverseList]
    exact (Expr.traverseList_traced labels).idsOf_map₃
      (fun labels body rest => (⟨comments, labels, isDefault, form, body⟩ : SwitchCase) :: rest)
      body.traverse_traced (SwitchCase.traverseList_traced rest)

theorem Declarator.idsOf_traverseList (declarators : List Declarator) :
    idsOf (fun _ _ t => Declarator.traverseList t declarators) =
      declarators.flatMap Declarator.ids := by
  induction declarators with
  | nil => rfl
  | cons declarator rest ih =>
    obtain ⟨id, name, dims, init⟩ := declarator
    rw [List.flatMap_cons, ← ih, Declarator.ids, ← Expr.idsOf_traverseOption]
    exact (Traced.silent id).idsOf_map₃
      (fun id init rest => (⟨id, name, dims, init⟩ : Declarator) :: rest)
      (Expr.traverseOption_traced init) (Declarator.traverseList_traced rest).1

theorem EnumConstant.idsOf_traverseList (constants : List EnumConstant) :
    idsOf (fun _ _ t => EnumConstant.traverseList t constants) =
      constants.flatMap EnumConstant.ids := by
  induction constants with
  | nil => rfl
  | cons constant rest ih =>
    obtain ⟨comments, annotations, name, args, body⟩ := constant
    rw [List.flatMap_cons, ← ih, EnumConstant.ids, List.append_assoc, ← Expr.idsOf_traverseItems,
      ← Member.idsOf_traverseBody]
    exact (Expr.traverseItems_traced args).idsOf_map₃
      (fun args body rest => (⟨comments, annotations, name, args, body⟩ : EnumConstant) :: rest)
      (Member.traverseBody_traced body) (EnumConstant.traverseList_traced rest)

theorem LambdaParam.idsOf_mapM (params : List LambdaParam) :
    idsOf (fun _ _ t => params.mapM (LambdaParam.traverse t)) = params.map (·.id) := by
  induction params with
  | nil => rfl
  | cons param rest ih =>
    have hcons : idsOf (fun _ _ t => (param :: rest).mapM (LambdaParam.traverse t)) =
        idsOf (fun _ _ t => param.traverse t) ++
          idsOf (fun _ _ t => rest.mapM (LambdaParam.traverse t)) := by
      rw [← Traced.idsOf_map₂ List.cons param.traverse_traced
        (Traced.mapM rest LambdaParam.traverse_traced), idsOf, idsOf, visitedBy, visitedBy,
        List.mapM_cons]
    rw [hcons, ih]
    rfl

/-! ### Expressions -/

namespace Expr

@[simp] theorem ids_name (id : NodeId) (name : String) : (Expr.name id name).ids = [id] := rfl

@[simp] theorem ids_literal (literal : Literal) : (Expr.literal literal).ids = [] := rfl

@[simp] theorem ids_field (receiver : Expr) (name : String) :
    (Expr.field receiver name).ids = receiver.ids := rfl

@[simp] theorem ids_call (receiver : Option Expr) (typeArgs : List TypeRef) (name : String)
    (args : List Expr) : (Expr.call receiver typeArgs name args).ids =
      receiver.toList.flatMap ids ++ args.flatMap ids := by
  cases receiver with
  | none => exact idsOf_traverseList args
  | some receiver =>
    rw [Option.toList_some, List.flatMap_singleton, ← idsOf_traverseList]
    exact receiver.traverse_traced.idsOf_map₂
      (fun receiver args => Expr.call (some receiver) typeArgs name args) (traverseList_traced args)

@[simp] theorem ids_index (array index : Expr) :
    (Expr.index array index).ids = array.ids ++ index.ids :=
  array.traverse_traced.idsOf_map₂ Expr.index index.traverse_traced

@[simp] theorem ids_assign (target : Expr) (op : AssignOp) (value : Expr) :
    (Expr.assign target op value).ids = target.ids ++ value.ids :=
  target.traverse_traced.idsOf_map₂ (fun target value => Expr.assign target op value)
    value.traverse_traced

@[simp] theorem ids_binary (op : BinaryOp) (left right : Expr) :
    (Expr.binary op left right).ids = left.ids ++ right.ids :=
  left.traverse_traced.idsOf_map₂ (Expr.binary op) right.traverse_traced

@[simp] theorem ids_unary (op : UnaryOp) (operand : Expr) :
    (Expr.unary op operand).ids = operand.ids := rfl

@[simp] theorem ids_conditional (cond yes no : Expr) :
    (Expr.conditional cond yes no).ids = cond.ids ++ (yes.ids ++ no.ids) :=
  cond.traverse_traced.idsOf_map₃ Expr.conditional yes.traverse_traced no.traverse_traced

@[simp] theorem ids_cast (type : TypeRef) (operand : Expr) :
    (Expr.cast type operand).ids = operand.ids := rfl

@[simp] theorem ids_instanceOf (operand : Expr) (type : TypeRef) (binding : Option PatternBinding) :
    (Expr.instanceOf operand type binding).ids = operand.ids ++ binding.toList.map (·.id) := by
  cases binding with
  | none => exact (List.append_nil _).symm
  | some binding =>
    exact operand.traverse_traced.idsOf_map₂
      (fun operand binding => Expr.instanceOf operand type (some binding)) binding.traverse_traced

@[simp] theorem ids_new (outer : Option Expr) (type : TypeRef) (args : List Expr)
    (body : Option (List Member)) : (Expr.new outer type args body).ids =
      outer.toList.flatMap ids ++ (args.flatMap ids ++ (body.getD []).flatMap Member.ids) := by
  rw [← idsOf_traverseOption, ← idsOf_traverseList, ← Member.idsOf_traverseBody]
  exact (traverseOption_traced outer).idsOf_map₃ (fun outer args body => Expr.new outer type args body)
    (traverseList_traced args) (Member.traverseBody_traced body)

@[simp] theorem ids_newArray (element : TypeRef) (dims : List (Option Expr))
    (init : Option (List Expr)) : (Expr.newArray element dims init).ids =
      (dims.flatMap fun dim => dim.toList.flatMap ids) ++ (init.getD []).flatMap ids := by
  rw [← idsDims_eq, ← idsOf_traverseItems]
  exact (traverseDims_traced dims).idsOf_map₂ (fun dims init => Expr.newArray element dims init)
    (traverseItems_traced init)

@[simp] theorem ids_arrayInit (items : List Expr) :
    (Expr.arrayInit items).ids = items.flatMap ids := idsOf_traverseList items

@[simp] theorem ids_lambda (params : List LambdaParam) (parenthesized : Bool) (body : LambdaBody) :
    (Expr.lambda params parenthesized body).ids = params.map (·.id) ++ body.ids := by
  rw [← LambdaParam.idsOf_mapM]
  exact (Traced.mapM params LambdaParam.traverse_traced).idsOf_map₂
    (fun params body => Expr.lambda params parenthesized body) body.traverse_traced

@[simp] theorem ids_methodRef (target : Expr) (name : String) :
    (Expr.methodRef target name).ids = target.ids := rfl

@[simp] theorem ids_classLiteral (type : TypeRef) : (Expr.classLiteral type).ids = [] := rfl

@[simp] theorem ids_this : Expr.this.ids = [] := rfl

@[simp] theorem ids_super : Expr.super.ids = [] := rfl

@[simp] theorem ids_paren (inner : Expr) : (Expr.paren inner).ids = inner.ids := rfl

@[simp] theorem ids_typeName (type : TypeRef) : (Expr.typeName type).ids = [] := rfl

end Expr

@[simp] theorem LambdaBody.ids_expr (value : Expr) : (LambdaBody.expr value).ids = value.ids := rfl

@[simp] theorem LambdaBody.ids_block (body : Block) : (LambdaBody.block body).ids = body.ids := rfl

/-! ### Statements -/

@[simp] theorem Block.ids_mk (stmts : List Stmt) (endComments : List Comment)
    (closing : Option Trivia) : (Block.mk stmts endComments closing).ids = stmts.flatMap Stmt.ids :=
  Stmt.idsOf_traverseList stmts

theorem Block.ids_eq (body : Block) : body.ids = body.stmts.flatMap Stmt.ids := by
  obtain ⟨stmts, endComments, closing⟩ := body
  exact Block.ids_mk stmts endComments closing

@[simp] theorem Stmt.ids_mk (layout : Layout) (trailing : Option Comment) (kind : StmtKind) :
    (Stmt.mk layout trailing kind).ids = kind.ids := rfl

theorem Stmt.ids_eq (stmt : Stmt) : stmt.ids = stmt.kind.ids := by
  obtain ⟨layout, trailing, kind⟩ := stmt
  rfl

@[simp] theorem LocalVar.ids_mk (annotations : List Annot) (modifiers : List Modifier)
    (type : TypeRef) (declarators : List Declarator) :
    (LocalVar.mk annotations modifiers type declarators).ids = declarators.flatMap Declarator.ids :=
  Declarator.idsOf_traverseList declarators

@[simp] theorem Resource.ids_decl (inner : LocalVar) : (Resource.decl inner).ids = inner.ids := rfl

@[simp] theorem Resource.ids_expr (value : Expr) : (Resource.expr value).ids = value.ids := rfl

@[simp] theorem ForInit.ids_decl (inner : LocalVar) : (ForInit.decl inner).ids = inner.ids := rfl

@[simp] theorem ForInit.ids_exprs (values : List Expr) :
    (ForInit.exprs values).ids = values.flatMap Expr.ids := Expr.idsOf_traverseList values

@[simp] theorem CatchClause.ids_mk (id : NodeId) (annotations : List Annot)
    (modifiers : List Modifier) (types : List TypeRef) (name : String) (body : Block) :
    (CatchClause.mk id annotations modifiers types name body).ids = id :: body.ids := rfl

@[simp] theorem SwitchCase.ids_mk (comments : List Comment) (labels : List Expr) (isDefault : Bool)
    (form : CaseForm) (body : Block) : (SwitchCase.mk comments labels isDefault form body).ids =
      labels.flatMap Expr.ids ++ body.ids := rfl

@[simp] theorem Declarator.ids_mk (id : NodeId) (name : String) (dims : Nat) (init : Option Expr) :
    (Declarator.mk id name dims init).ids = id :: init.toList.flatMap Expr.ids := rfl

namespace StmtKind

@[simp] theorem ids_block (body : Block) : (StmtKind.block body).ids = body.ids := rfl

@[simp] theorem ids_localVar (decl : LocalVar) : (StmtKind.localVar decl).ids = decl.ids := rfl

@[simp] theorem ids_localClass (decl : TypeDecl) : (StmtKind.localClass decl).ids = decl.ids := rfl

@[simp] theorem ids_expr (value : Expr) : (StmtKind.expr value).ids = value.ids := rfl

@[simp] theorem ids_ret (value : Option Expr) :
    (StmtKind.ret value).ids = value.toList.flatMap Expr.ids := Expr.idsOf_traverseOption value

@[simp] theorem ids_ifElse (cond : Expr) (yes : Stmt) (no : Option Stmt) :
    (StmtKind.ifElse cond yes no).ids = cond.ids ++ (yes.ids ++ no.toList.flatMap Stmt.ids) := by
  cases no with
  | none =>
    rw [Option.toList_none, List.flatMap_nil, List.append_nil]
    exact cond.traverse_traced.idsOf_map₂ (fun cond yes => StmtKind.ifElse cond yes none) yes.traverse_traced
  | some no =>
    rw [Option.toList_some, List.flatMap_singleton]
    exact cond.traverse_traced.idsOf_map₃ (fun cond yes no => StmtKind.ifElse cond yes (some no))
      yes.traverse_traced no.traverse_traced

@[simp] theorem ids_whileLoop (cond : Expr) (body : Stmt) :
    (StmtKind.whileLoop cond body).ids = cond.ids ++ body.ids :=
  cond.traverse_traced.idsOf_map₂ StmtKind.whileLoop body.traverse_traced

@[simp] theorem ids_doWhile (body : Stmt) (cond : Expr) :
    (StmtKind.doWhile body cond).ids = body.ids ++ cond.ids :=
  body.traverse_traced.idsOf_map₂ StmtKind.doWhile cond.traverse_traced

@[simp] theorem ids_forLoop (init : ForInit) (cond : Option Expr) (update : List Expr)
    (body : Stmt) : (StmtKind.forLoop init cond update body).ids =
      init.ids ++ (cond.toList.flatMap Expr.ids ++ (update.flatMap Expr.ids ++ body.ids)) := by
  rw [← Expr.idsOf_traverseOption, ← Expr.idsOf_traverseList]
  exact init.traverse_traced.idsOf_map₄ StmtKind.forLoop (Expr.traverseOption_traced cond)
    (Expr.traverseList_traced update) body.traverse_traced

@[simp] theorem ids_forEach (var : LoopVar) (iterable : Expr) (body : Stmt) :
    (StmtKind.forEach var iterable body).ids = iterable.ids ++ (var.id :: body.ids) := by
  obtain ⟨id, annotations, modifiers, type, name⟩ := var
  exact iterable.traverse_traced.idsOf_map₃ (fun iterable var body => StmtKind.forEach var iterable body)
    (LoopVar.traverse_traced ⟨id, annotations, modifiers, type, name⟩) body.traverse_traced

@[simp] theorem ids_tryBlock (resources : List Resource) (body : Block)
    (catches : List CatchClause) (finallyBody : Option Block) :
    (StmtKind.tryBlock resources body catches finallyBody).ids =
      resources.flatMap Resource.ids ++
        (body.ids ++ (catches.flatMap CatchClause.ids ++ finallyBody.toList.flatMap Block.ids)) := by
  rw [← Resource.idsOf_traverseList, ← CatchClause.idsOf_traverseList, ← Block.idsOf_traverseOption]
  exact (Resource.traverseList_traced resources).idsOf_map₄ StmtKind.tryBlock body.traverse_traced
    (CatchClause.traverseList_traced catches) (Block.traverseOption_traced finallyBody)

@[simp] theorem ids_throw (value : Expr) : (StmtKind.throw value).ids = value.ids := rfl

@[simp] theorem ids_breakTo (label : Option String) : (StmtKind.breakTo label).ids = [] := rfl

@[simp] theorem ids_continueTo (label : Option String) : (StmtKind.continueTo label).ids = [] := rfl

@[simp] theorem ids_switch (selector : Expr) (cases : List SwitchCase) :
    (StmtKind.switch selector cases).ids = selector.ids ++ cases.flatMap SwitchCase.ids := by
  rw [← SwitchCase.idsOf_traverseList]
  exact selector.traverse_traced.idsOf_map₂ StmtKind.switch (SwitchCase.traverseList_traced cases)

@[simp] theorem ids_sync (lock : Expr) (body : Block) :
    (StmtKind.sync lock body).ids = lock.ids ++ body.ids :=
  lock.traverse_traced.idsOf_map₂ StmtKind.sync body.traverse_traced

@[simp] theorem ids_labeled (label : String) (body : Stmt) :
    (StmtKind.labeled label body).ids = body.ids := rfl

@[simp] theorem ids_assertion (cond : Expr) (message : Option Expr) :
    (StmtKind.assertion cond message).ids = cond.ids ++ message.toList.flatMap Expr.ids := by
  rw [← Expr.idsOf_traverseOption]
  exact cond.traverse_traced.idsOf_map₂ StmtKind.assertion (Expr.traverseOption_traced message)

@[simp] theorem ids_empty : StmtKind.empty.ids = [] := rfl

end StmtKind

/-! ### Declarations -/

@[simp] theorem Member.ids_field (decl : FieldDecl) : (Member.field decl).ids = decl.ids := rfl

@[simp] theorem Member.ids_method (decl : Method) : (Member.method decl).ids = decl.ids := rfl

@[simp] theorem Member.ids_type (decl : TypeDecl) : (Member.type decl).ids = decl.ids := rfl

@[simp] theorem Member.ids_initializer (decl : Initializer) :
    (Member.initializer decl).ids = decl.body.ids := by
  obtain ⟨layout, isStatic, body⟩ := decl
  rfl

theorem FieldDecl.ids_eq (decl : FieldDecl) :
    decl.ids = decl.declarators.flatMap Declarator.ids := by
  obtain ⟨layout, annotations, modifiers, type, declarators, trailing⟩ := decl
  exact Declarator.idsOf_traverseList declarators

theorem Method.ids_eq (method : Method) :
    method.ids = method.id :: (method.params.map (·.id) ++ method.body.toList.flatMap Block.ids) := by
  rw [← Block.idsOf_traverseOption, ids, idsOf, ← mentions_eq_visitedBy, mentions_eq, List.map_cons,
    List.map_append, List.map_map]
  rfl

theorem TypeDecl.ids_eq (decl : TypeDecl) :
    decl.ids = decl.id ::
      (decl.constants.flatMap EnumConstant.ids ++ decl.members.flatMap Member.ids) := by
  obtain ⟨id, layout, annotations, modifiers, kind, name, typeParams, superTypes, interfaces,
    constants, members, endComments, closing⟩ := decl
  rw [← EnumConstant.idsOf_traverseList, ← Member.idsOf_traverseList]
  exact Traced.idsOf_map₃ (fun id constants members => (⟨id, layout, annotations, modifiers, kind,
      name, typeParams, superTypes, interfaces, constants, members, endComments, closing⟩ : TypeDecl))
    (.silent id) (EnumConstant.traverseList_traced constants) (Member.traverseList_traced members)

@[simp] theorem EnumConstant.ids_mk (comments : List Comment) (annotations : List Annot)
    (name : String) (args : Option (List Expr)) (body : Option (List Member)) :
    (EnumConstant.mk comments annotations name args body).ids =
      (args.getD []).flatMap Expr.ids ++ (body.getD []).flatMap Member.ids := rfl

/-! ### Edits at paths -/

/-- The identities of a part of a body. -/
def Focus.ids : Focus → List NodeId
  | .block inner => inner.ids
  | .stmt inner => inner.ids

/-- Whether a tree has the identities of another one, except that those of a part are exchanged. -/
def Focus.Exchanges (part new focus focus' : Focus) : Prop :=
  ∀ id : Nat, focus'.ids.count id + part.ids.count id = focus.ids.count id + new.ids.count id

namespace Focus

theorem Swap.exchanges {step : Step} {part new focus focus' : Focus}
    (h : Swap step part new focus focus') : Exchanges part new focus focus' := by
  intro id
  cases h <;> simp [Focus.ids, CatchClause.ids, SwitchCase.ids, List.count_cons] <;> omega

theorem Exchanges.outwards {part new inner inner' focus focus' : Focus}
    (h : Exchanges part new inner inner') (h' : Exchanges inner inner' focus focus') :
    Exchanges part new focus focus' := by
  intro id
  have hinner := h id
  have hfocus := h' id
  omega

theorem carries_exchanges : Carries Exchanges where
  self := fun _ _ _ => Nat.add_comm _ _
  outwards := fun h hswap => h.outwards hswap.exchanges

end Focus

namespace Block

/-- Changing a statement changes its identities only. -/
theorem ids_updateStmt? {body body' : Block} {path : StmtPath} {change : Stmt → Stmt}
    (h : body.updateStmt? path change = some body') :
    ∃ stmt, body.stmtAt? path = some stmt ∧ ∀ id : Nat,
      body'.ids.count id + stmt.ids.count id = body.ids.count id + (change stmt).ids.count id :=
  Focus.carries_exchanges.exists_stmt h

/-- Changing a block changes its identities only. -/
theorem ids_updateBlock? {body body' : Block} {path : StmtPath} {change : Block → Option Block}
    (h : body.updateBlock? path change = some body') :
    ∃ block block', body.blockAt? path = some block ∧ change block = some block' ∧ ∀ id : Nat,
      body'.ids.count id + block.ids.count id = body.ids.count id + block'.ids.count id :=
  Focus.carries_exchanges.exists_block h

end Block

end AdviceMigration.Source
