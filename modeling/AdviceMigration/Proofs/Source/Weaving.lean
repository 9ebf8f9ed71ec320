import AdviceMigration.Proofs.Source.Mentions

/-!
# Expressions in place of names

A traversal puts an identity in place of each declaration and an expression in place of each name, and leaves the rest of a tree alone. So what the new tree says about names is what the old one says, with the events of these expressions woven in where the names were used. This holds of every result in every monad, whatever is known of what the two actions of the traversal answer.
-/

namespace AdviceMigration.Source

open AdviceMigration.Scope

/-! ### Results of a computation -/

/-- Whether all results of a computation have a property. -/
def Always {m : Type → Type} [Monad m] {α : Type} (property : α → Prop) (make : m α) : Prop :=
  ∃ make' : m {value // property value}, Subtype.val <$> make' = make

namespace Always

variable {m : Type → Type} [Monad m] [LawfulMonad m] {α β γ δ ε : Type} {P : α → Prop}
  {Q : β → Prop} {R : γ → Prop} {S : δ → Prop} {T : ε → Prop} {first : m α} {second : m β}
  {third : m γ} {fourth : m δ}

theorem pure {value : ε} (h : T value) : Always T (Pure.pure value : m ε) :=
  ⟨Pure.pure ⟨value, h⟩, map_pure _ _⟩

theorem trivial : Always (fun _ => True) first := by
  refine ⟨(fun value => ⟨value, True.intro⟩) <$> first, ?_⟩
  rw [← comp_map]
  exact id_map _

theorem bind {next : α → m ε} (hfirst : Always P first) (hnext : ∀ a, P a → Always T (next a)) :
    Always T (first >>= next) := by
  obtain ⟨first', rfl⟩ := hfirst
  choose next' hnext using hnext
  refine ⟨first' >>= fun a => next' a.1 a.2, ?_⟩
  rw [map_bind, bind_map_left]
  exact congrArg (first' >>= ·) (funext fun a => hnext a.1 a.2)

theorem imp (h : Always P first) {P' : α → Prop} (himp : ∀ a, P a → P' a) : Always P' first := by
  obtain ⟨first', rfl⟩ := h
  refine ⟨(fun a => ⟨a.1, himp a.1 a.2⟩) <$> first', ?_⟩
  rw [← comp_map]
  rfl

theorem map {f : α → ε} (hfirst : Always P first) (hf : ∀ a, P a → T (f a)) :
    Always T (do return f (← first)) :=
  hfirst.bind fun a ha => .pure (hf a ha)

theorem map₂ {f : α → β → ε} (hfirst : Always P first) (hsecond : Always Q second)
    (hf : ∀ a b, P a → Q b → T (f a b)) :
    Always T (do
      let a ← first
      return f a (← second)) :=
  hfirst.bind fun a ha => hsecond.map fun b hb => hf a b ha hb

theorem map₃ {f : α → β → γ → ε} (hfirst : Always P first) (hsecond : Always Q second)
    (hthird : Always R third) (hf : ∀ a b c, P a → Q b → R c → T (f a b c)) :
    Always T (do
      let a ← first
      let b ← second
      return f a b (← third)) :=
  hfirst.bind fun a ha => hsecond.map₂ hthird fun b c hb hc => hf a b c ha hb hc

theorem map₄ {f : α → β → γ → δ → ε} (hfirst : Always P first) (hsecond : Always Q second)
    (hthird : Always R third) (hfourth : Always S fourth)
    (hf : ∀ a b c d, P a → Q b → R c → S d → T (f a b c d)) :
    Always T (do
      let a ← first
      let b ← second
      let c ← third
      return f a b c (← fourth)) :=
  hfirst.bind fun a ha => hsecond.map₃ hthird hfourth fun b c d hb hc hd => hf a b c d ha hb hc hd

theorem run_id {value : Id α} (h : Always P value) : P (Id.run value) := by
  obtain ⟨value', rfl⟩ := h
  exact value'.2

theorem run_state {σ : Type} {make : StateM σ α} (h : Always P make) (state : σ) :
    P (make.run state).1 := by
  obtain ⟨make', rfl⟩ := h
  exact (make'.run state).1.2

end Always

/-! ### Events with others woven in -/

/-- What an expression says where a name stands in the given role. A plain assignment only writes a bare name. -/
def Expr.eventsAs : Role → Expr → List Event
  | .read, expr => expr.events
  | .write, .name id used => [.use .write used id]
  | .write, expr => expr.events

/-- What may stand in place of one event, if `decl` relates declarations to what replaces them and `name` does so with names. -/
inductive Becomes (decl : NodeId → NodeId → Prop) (name : NodeId → String → Expr → Prop) :
    Event → List Event → Prop where
  | hold : Becomes decl name .hold [.hold]
  | open : Becomes decl name .open [.open]
  | release : Becomes decl name .release [.release]
  | swap : Becomes decl name .swap [.swap]
  | effect : Becomes decl name .effect [.effect]
  | bind {binder : Binder} {bound : String} {id id' : NodeId} (h : decl id id') :
      Becomes decl name (.bind binder bound id) [.bind binder bound id']
  | use {role : Role} {used : String} {id : NodeId} {expr : Expr} (h : name id used expr) :
      Becomes decl name (.use role used id) (expr.eventsAs role)

/-- Whether the second list of events is the first one with others in place of declarations and names. -/
inductive Woven (decl : NodeId → NodeId → Prop) (name : NodeId → String → Expr → Prop) :
    List Event → List Event → Prop where
  | nil : Woven decl name [] []
  | cons {event : Event} {piece events events' : List Event} (h : Becomes decl name event piece)
      (h' : Woven decl name events events') : Woven decl name (event :: events) (piece ++ events')

namespace Woven

variable {decl : NodeId → NodeId → Prop} {name : NodeId → String → Expr → Prop}
  {events events' others others' : List Event}

theorem append (h : Woven decl name events events') (h' : Woven decl name others others') :
    Woven decl name (events ++ others) (events' ++ others') := by
  induction h with
  | nil => exact h'
  | cons hevent _ ih =>
    rw [List.append_assoc]
    exact .cons hevent ih

theorem single {event : Event} {piece : List Event} (h : Becomes decl name event piece) :
    Woven decl name [event] piece := by
  have hcons : Woven decl name [event] (piece ++ []) := .cons h .nil
  rwa [List.append_nil] at hcons

theorem use {role : Role} {used : String} {id : NodeId} {expr : Expr} (h : name id used expr) :
    Woven decl name [.use role used id] (expr.eventsAs role) :=
  .single (.use h)

theorem bind {binder : Binder} {bound : String} {id id' : NodeId} (h : decl id id') :
    Woven decl name [.bind binder bound id] [.bind binder bound id'] :=
  .single (.bind h)

theorem cons_effect (h : Woven decl name events events') :
    Woven decl name (.effect :: events) (.effect :: events') :=
  (single .effect).append h

theorem enclosed (h : Woven decl name events events') :
    Woven decl name (Scope.enclosed events) (Scope.enclosed events') :=
  ((single .hold).append ((single .open).append h)).append (single .release)

theorem held (h : Woven decl name events events') :
    Woven decl name (Scope.held events) (Scope.held events') :=
  ((single .hold).append h).append (single .release)

theorem outside (h : Woven decl name events events') :
    Woven decl name (Scope.outside events) (Scope.outside events') :=
  ((single .swap).append h).append (single .swap)

end Woven

/-! ### Traversals -/

section Traversal

variable {m : Type → Type} [Monad m] [LawfulMonad m] {decl : NodeId → NodeId → Prop}
  {name : NodeId → String → Expr → Prop} {t : Traversal m}

/-- Whether the answers of a traversal are always among those that the two relations allow. -/
structure Traversal.Weaves (decl : NodeId → NodeId → Prop) (name : NodeId → String → Expr → Prop)
    (t : Traversal m) : Prop where
  decl : ∀ id, Always (decl id) (t.decl id)
  name : ∀ id used, Always (name id used) (t.name id used)

/-- Whether an expression is another one with expressions in place of its names, whatever role it plays. -/
def Expr.WovenInto (decl : NodeId → NodeId → Prop) (name : NodeId → String → Expr → Prop)
    (expr expr' : Expr) : Prop :=
  ∀ role, Woven decl name (expr.eventsAs role) (expr'.eventsAs role)

theorem Expr.WovenInto.of_events {expr expr' : Expr} (hrole : expr.eventsAs .write = expr.events)
    (hrole' : expr'.eventsAs .write = expr'.events) (h : Woven decl name expr.events expr'.events) :
    expr.WovenInto decl name expr'
  | .read => h
  | .write => hrole ▸ hrole' ▸ h

theorem Expr.WovenInto.of_name {id : NodeId} {used : String} {expr : Expr} (h : name id used expr) :
    (Expr.name id used).WovenInto decl name expr
  | .read => .use h
  | .write => .use h

theorem Expr.WovenInto.events {expr expr' : Expr} (h : expr.WovenInto decl name expr') :
    Woven decl name expr.events expr'.events :=
  h .read

/-- The role in which the target of an assignment is met. -/
def AssignOp.role : AssignOp → Role
  | .assign => .write
  | _ => .read

theorem Expr.events_assign_eq (target : Expr) (op : AssignOp) (value : Expr) :
    (Expr.assign target op value).events =
      .effect :: (target.eventsAs op.role ++ value.events) := by
  cases op <;> cases target <;> rfl

/-- Items that bind one name each. -/
theorem Always.mapM_binds {α : Type} {make : α → m α} (binder : Binder) {bound : α → String}
    {id : α → NodeId} (items : List α)
    (h : ∀ item, Always (fun item' => bound item' = bound item ∧ decl (id item) (id item'))
      (make item)) :
    Always (fun items' => Woven decl name (items.map fun item => .bind binder (bound item) (id item))
      (items'.map fun item => .bind binder (bound item) (id item))) (items.mapM make) := by
  induction items with
  | nil => exact .pure .nil
  | cons item rest ih =>
    rw [List.mapM_cons]
    refine (h item).map₂ ih fun item' rest' hitem hrest => ?_
    rw [List.map_cons, List.map_cons, hitem.1]
    exact (Woven.bind hitem.2).append hrest

theorem LambdaParam.weaves (h : t.Weaves decl name) (param : LambdaParam) :
    Always (fun param' => param'.name = param.name ∧ decl param.id param'.id) (param.traverse t) :=
  (h.decl param.id).map fun _ hid => ⟨rfl, hid⟩

theorem Param.weaves (h : t.Weaves decl name) (param : Param) :
    Always (fun param' => param'.name = param.name ∧ decl param.id param'.id) (param.traverse t) :=
  (h.decl param.id).map fun _ hid => ⟨rfl, hid⟩

theorem LoopVar.weaves (h : t.Weaves decl name) : (var : LoopVar) →
    Always (fun var' => var'.name = var.name ∧ decl var.id var'.id) (var.traverse t)
  | ⟨id, _, _, _, _⟩ => (h.decl id).map fun _ hid => ⟨rfl, hid⟩

theorem PatternBinding.weaves (h : t.Weaves decl name) (binding : PatternBinding) :
    Always (fun binding' => binding'.name = binding.name ∧ decl binding.id binding'.id)
      (binding.traverse t) :=
  (h.decl binding.id).map fun _ hid => ⟨rfl, hid⟩

/-- The constants of an enum. -/
theorem Woven.constants {id id' : NodeId} {constants constants' : List EnumConstant}
    (h : decl id id') (hnames : constants'.map (·.name) = constants.map (·.name)) :
    Woven decl name (constantEvents id constants) (constantEvents id' constants') := by
  have hall : ∀ names : List String, Woven decl name
      (names.map fun constant => .bind .enumConstant constant id)
      (names.map fun constant => .bind .enumConstant constant id') := by
    intro names
    induction names with
    | nil => exact .nil
    | cons constant rest ih => exact (Woven.bind h).append ih
  have hconstants := hall (constants.map (·.name))
  rw [List.map_map, ← hnames, List.map_map] at hconstants
  exact hconstants

/-- Whether members bind the fields and say the events that others do, with expressions in place of names. -/
structure MembersWoven (decl : NodeId → NodeId → Prop) (name : NodeId → String → Expr → Prop)
    (members members' : List Member) : Prop where
  fields : Woven decl name (fieldEvents members) (fieldEvents members')
  events : Woven decl name (Member.eventsList members) (Member.eventsList members')

/-- The same of declared variables, which are local ones or fields. -/
structure DeclaratorsWoven (decl : NodeId → NodeId → Prop) (name : NodeId → String → Expr → Prop)
    (declarators declarators' : List Declarator) : Prop where
  locals : Woven decl name (Declarator.eventsList declarators) (Declarator.eventsList declarators')
  fields : Woven decl name (declarators.map fun d => .bind .field d.name d.id)
    (declarators'.map fun d => .bind .field d.name d.id)
  inits : Woven decl name (Declarator.initEvents declarators) (Declarator.initEvents declarators')

mutual
theorem Expr.weaves (h : t.Weaves decl name) :
    (expr : Expr) → Always (expr.WovenInto decl name) (expr.traverse t)
  | .name id used => (h.name id used).imp fun _ hexpr => .of_name hexpr
  | .literal _ => .pure (.of_events rfl rfl .nil)
  | .field receiver _ => (receiver.weaves h).map fun _ hreceiver => .of_events rfl rfl hreceiver.events
  | .call none _ _ args =>
    (Expr.weavesList h args).map fun _ hargs => .of_events rfl rfl hargs.cons_effect
  | .call (some receiver) _ _ args =>
    (receiver.weaves h).map₂ (Expr.weavesList h args) fun _ _ hreceiver hargs =>
      .of_events rfl rfl (hreceiver.events.cons_effect.append hargs)
  | .index array index =>
    (array.weaves h).map₂ (index.weaves h) fun _ _ harray hindex =>
      .of_events rfl rfl (harray.events.append hindex.events)
  | .assign target op value =>
    (target.weaves h).map₂ (value.weaves h) fun _ _ htarget hvalue => by
      refine .of_events rfl rfl ?_
      rw [Expr.events_assign_eq, Expr.events_assign_eq]
      exact ((htarget op.role).append hvalue.events).cons_effect
  | .binary _ left right =>
    (left.weaves h).map₂ (right.weaves h) fun _ _ hleft hright =>
      .of_events rfl rfl (hleft.events.append hright.events)
  | .unary op operand =>
    (operand.weaves h).map fun _ hoperand => by
      refine .of_events rfl rfl ?_
      rw [Expr.events, Expr.events]
      split
      · exact hoperand.events.cons_effect
      · exact hoperand.events
  | .conditional cond yes no =>
    (cond.weaves h).map₃ (yes.weaves h) (no.weaves h) fun _ _ _ hcond hyes hno =>
      .of_events rfl rfl ((hcond.events.append hyes.events).append hno.events)
  | .cast _ operand => (operand.weaves h).map fun _ hoperand => .of_events rfl rfl hoperand.events
  | .instanceOf operand _ none =>
    (operand.weaves h).map fun _ hoperand => .of_events rfl rfl hoperand.events
  | .instanceOf operand _ (some binding) =>
    (operand.weaves h).map₂ (binding.weaves h) fun _ _ hoperand hbinding => by
      refine .of_events rfl rfl ?_
      rw [Expr.events, Expr.events, hbinding.1]
      exact hoperand.events.append (.bind hbinding.2)
  | .new outer _ args body =>
    (Expr.weavesOption h outer).map₃ (Expr.weavesList h args) (Member.weavesBody h body)
      fun _ _ _ houter hargs hbody =>
        .of_events rfl rfl ((houter.cons_effect.append hargs).append hbody)
  | .newArray _ dims init =>
    (Expr.weavesDims h dims).map₂ (Expr.weavesItems h init) fun _ _ hdims hinit =>
      .of_events rfl rfl (hdims.cons_effect.append hinit)
  | .arrayInit items => (Expr.weavesList h items).map fun _ hitems => .of_events rfl rfl hitems
  | .lambda params _ body =>
    (Always.mapM_binds .lambdaParam params (LambdaParam.weaves h)).map₂ (body.weaves h)
      fun _ _ hparams hbody => .of_events rfl rfl (hparams.append hbody).enclosed
  | .methodRef target _ => (target.weaves h).map fun _ htarget => .of_events rfl rfl htarget.events
  | .classLiteral _ => .pure (.of_events rfl rfl .nil)
  | .this => .pure (.of_events rfl rfl .nil)
  | .super => .pure (.of_events rfl rfl .nil)
  | .paren inner => (inner.weaves h).map fun _ hinner => .of_events rfl rfl hinner.events
  | .typeName _ => .pure (.of_events rfl rfl .nil)

theorem Expr.weavesList (h : t.Weaves decl name) : (exprs : List Expr) →
    Always (fun exprs' => Woven decl name (Expr.eventsList exprs) (Expr.eventsList exprs'))
      (Expr.traverseList t exprs)
  | [] => .pure .nil
  | expr :: rest => (expr.weaves h).map₂ (Expr.weavesList h rest) fun _ _ hexpr hrest =>
    hexpr.events.append hrest

theorem Expr.weavesOption (h : t.Weaves decl name) : (expr : Option Expr) →
    Always (fun expr' => Woven decl name (Expr.eventsOption expr) (Expr.eventsOption expr'))
      (Expr.traverseOption t expr)
  | none => .pure .nil
  | some expr => (expr.weaves h).map fun _ hexpr => hexpr.events

theorem Expr.weavesDims (h : t.Weaves decl name) : (dims : List (Option Expr)) →
    Always (fun dims' => Woven decl name (Expr.eventsDims dims) (Expr.eventsDims dims'))
      (Expr.traverseDims t dims)
  | [] => .pure .nil
  | dim :: rest => (Expr.weavesOption h dim).map₂ (Expr.weavesDims h rest) fun _ _ hdim hrest =>
    hdim.append hrest

theorem Expr.weavesItems (h : t.Weaves decl name) : (items : Option (List Expr)) →
    Always (fun items' => Woven decl name (Expr.eventsItems items) (Expr.eventsItems items'))
      (Expr.traverseItems t items)
  | none => .pure .nil
  | some items => (Expr.weavesList h items).map fun _ hitems => hitems

theorem LambdaBody.weaves (h : t.Weaves decl name) : (body : LambdaBody) →
    Always (fun body' => Woven decl name body.events body'.events) (body.traverse t)
  | .expr value => (value.weaves h).map fun _ hvalue => hvalue.events
  | .block body => (body.weaves h).map fun _ hbody => hbody.1

theorem Block.weaves (h : t.Weaves decl name) : (body : Block) →
    Always (fun body' => Woven decl name body.events body'.events ∧
      Woven decl name body.innerEvents body'.innerEvents) (body.traverse t)
  | ⟨stmts, _, _⟩ => (Stmt.weavesList h stmts).map fun _ hstmts => ⟨hstmts.enclosed, hstmts⟩

theorem Block.weavesOption (h : t.Weaves decl name) : (body : Option Block) →
    Always (fun body' => Woven decl name (Block.eventsOption body) (Block.eventsOption body'))
      (Block.traverseOption t body)
  | none => .pure .nil
  | some body => (body.weaves h).map fun _ hbody => hbody.1

theorem Stmt.weavesList (h : t.Weaves decl name) : (stmts : List Stmt) →
    Always (fun stmts' => Woven decl name (Stmt.eventsList stmts) (Stmt.eventsList stmts'))
      (Stmt.traverseList t stmts)
  | [] => .pure .nil
  | stmt :: rest => (stmt.weaves h).map₂ (Stmt.weavesList h rest) fun _ _ hstmt hrest =>
    hstmt.append hrest

theorem Stmt.weaves (h : t.Weaves decl name) : (stmt : Stmt) →
    Always (fun stmt' => Woven decl name stmt.events stmt'.events) (stmt.traverse t)
  | ⟨_, _, kind⟩ => (kind.weaves h).map fun _ hkind => hkind

theorem StmtKind.weaves (h : t.Weaves decl name) : (kind : StmtKind) →
    Always (fun kind' => Woven decl name kind.events kind'.events) (kind.traverse t)
  | .block body => (body.weaves h).map fun _ hbody => hbody.1
  | .localVar decl => (decl.weaves h).map fun _ hdecl => hdecl
  | .localClass decl => (decl.weaves h).map fun _ hdecl => hdecl
  | .expr value => (value.weaves h).map fun _ hvalue => hvalue.events
  | .ret value => (Expr.weavesOption h value).map fun _ hvalue => hvalue
  | .ifElse cond yes none =>
    (cond.weaves h).map₂ (yes.weaves h) fun _ _ hcond hyes => hcond.events.append hyes.enclosed
  | .ifElse cond yes (some no) =>
    (cond.weaves h).map₃ (yes.weaves h) (no.weaves h) fun _ _ _ hcond hyes hno =>
      (hcond.events.append hyes.enclosed).append hno.enclosed
  | .whileLoop cond body =>
    (cond.weaves h).map₂ (body.weaves h) fun _ _ hcond hbody => hcond.events.append hbody.enclosed
  | .doWhile body cond =>
    (body.weaves h).map₂ (cond.weaves h) fun _ _ hbody hcond => hbody.enclosed.append hcond.events
  | .forLoop init cond update body =>
    (init.weaves h).map₄ (Expr.weavesOption h cond) (Expr.weavesList h update) (body.weaves h)
      fun _ _ _ _ hinit hcond hupdate hbody =>
        (((hinit.append hcond).append hupdate).append hbody.enclosed).enclosed
  | .forEach var iterable body =>
    (iterable.weaves h).map₃ (var.weaves h) (body.weaves h)
      fun _ _ _ hiterable hvar hbody => by
        rw [StmtKind.events, StmtKind.events, hvar.1]
        exact hiterable.events.append ((Woven.bind hvar.2).append hbody).enclosed
  | .tryBlock resources body catches finallyBody =>
    (Resource.weavesList h resources).map₄ (body.weaves h) (CatchClause.weavesList h catches)
      (Block.weavesOption h finallyBody) fun _ _ _ _ hresources hbody hcatches hfinally =>
        ((hresources.append hbody.1).enclosed.append hcatches).append hfinally
  | .throw value => (value.weaves h).map fun _ hvalue => hvalue.events
  | .breakTo _ => .pure .nil
  | .continueTo _ => .pure .nil
  | .switch selector cases =>
    (selector.weaves h).map₂ (SwitchCase.weavesList h cases) fun _ _ hselector hcases =>
      hselector.events.append hcases.enclosed
  | .sync lock body =>
    (lock.weaves h).map₂ (body.weaves h) fun _ _ hlock hbody => hlock.events.append hbody.1
  | .labeled _ body => (body.weaves h).map fun _ hbody => hbody.held
  | .assertion cond message =>
    (cond.weaves h).map₂ (Expr.weavesOption h message) fun _ _ hcond hmessage =>
      hcond.events.append hmessage
  | .empty => .pure .nil

theorem ForInit.weaves (h : t.Weaves decl name) : (init : ForInit) →
    Always (fun init' => Woven decl name init.events init'.events) (init.traverse t)
  | .decl decl => (decl.weaves h).map fun _ hdecl => hdecl
  | .exprs values => (Expr.weavesList h values).map fun _ hvalues => hvalues

theorem Resource.weavesList (h : t.Weaves decl name) : (resources : List Resource) →
    Always (fun resources' => Woven decl name (Resource.eventsList resources)
      (Resource.eventsList resources')) (Resource.traverseList t resources)
  | [] => .pure .nil
  | .decl decl :: rest => (decl.weaves h).map₂ (Resource.weavesList h rest) fun _ _ hdecl hrest =>
    hdecl.append hrest
  | .expr value :: rest => (value.weaves h).map₂ (Resource.weavesList h rest)
    fun _ _ hvalue hrest => hvalue.events.append hrest

theorem CatchClause.weavesList (h : t.Weaves decl name) : (clauses : List CatchClause) →
    Always (fun clauses' => Woven decl name (CatchClause.eventsList clauses)
      (CatchClause.eventsList clauses')) (CatchClause.traverseList t clauses)
  | [] => .pure .nil
  | ⟨id, _, _, _, _, body⟩ :: rest =>
    (h.decl id).map₃ (body.weaves h) (CatchClause.weavesList h rest) fun _ _ _ hid hbody hrest =>
      ((Woven.bind hid).append hbody.1).enclosed.append hrest

theorem SwitchCase.weavesList (h : t.Weaves decl name) : (cases : List SwitchCase) →
    Always (fun cases' => Woven decl name (SwitchCase.eventsList cases)
      (SwitchCase.eventsList cases')) (SwitchCase.traverseList t cases)
  | [] => .pure .nil
  | ⟨_, labels, _, .colon, body⟩ :: rest =>
    (Expr.weavesList h labels).map₃ (body.weaves h) (SwitchCase.weavesList h rest)
      fun _ _ _ hlabels hbody hrest => (hlabels.outside.append hbody.2).append hrest
  | ⟨_, labels, _, .arrowBlock, body⟩ :: rest =>
    (Expr.weavesList h labels).map₃ (body.weaves h) (SwitchCase.weavesList h rest)
      fun _ _ _ hlabels hbody hrest => (hlabels.append hbody.1).outside.append hrest
  | ⟨_, labels, _, .arrowSingle, body⟩ :: rest =>
    (Expr.weavesList h labels).map₃ (body.weaves h) (SwitchCase.weavesList h rest)
      fun _ _ _ hlabels hbody hrest => (hlabels.append hbody.1).outside.append hrest

theorem LocalVar.weaves (h : t.Weaves decl name) : (vars : LocalVar) →
    Always (fun vars' => Woven decl name vars.events vars'.events) (vars.traverse t)
  | ⟨_, _, _, declarators⟩ => (Declarator.weavesList h declarators).map fun _ hall => hall.locals

theorem Declarator.weavesList (h : t.Weaves decl name) : (declarators : List Declarator) →
    Always (DeclaratorsWoven decl name declarators) (Declarator.traverseList t declarators)
  | [] => .pure ⟨.nil, .nil, .nil⟩
  | ⟨id, _, _, init⟩ :: rest =>
    (h.decl id).map₃ (Expr.weavesOption h init) (Declarator.weavesList h rest)
      fun _ _ _ hid hinit hrest =>
        ⟨(((Woven.single .open).append (.bind hid)).append hinit).append hrest.locals,
          (Woven.bind hid).append hrest.fields, hinit.append hrest.inits⟩

theorem Member.weavesBody (h : t.Weaves decl name) : (members : Option (List Member)) →
    Always (fun members' => Woven decl name (Member.eventsBody members) (Member.eventsBody members'))
      (Member.traverseBody t members)
  | none => .pure .nil
  | some members => (Member.weavesList h members).map fun _ hmembers =>
    (hmembers.fields.append hmembers.events).enclosed

theorem Member.weavesList (h : t.Weaves decl name) : (members : List Member) →
    Always (MembersWoven decl name members) (Member.traverseList t members)
  | [] => .pure ⟨.nil, .nil⟩
  | member :: rest =>
    (member.weaves h).map₂ (Member.weavesList h rest) fun member' rest' hmember hrest => by
      refine ⟨?_, hmember.2.append hrest.events⟩
      rw [fieldEvents_cons, fieldEvents_cons member']
      exact hmember.1.append hrest.fields

theorem Member.weaves (h : t.Weaves decl name) : (member : Member) →
    Always (fun member' => Woven decl name (fieldEvents [member]) (fieldEvents [member']) ∧
      Woven decl name member.events member'.events) (member.traverse t)
  | .field field => (field.weaves h).map fun _ hfield => hfield
  | .method method => (method.weaves h).map fun _ hmethod => ⟨.nil, hmethod⟩
  | .type type => (type.weaves h).map fun _ htype => ⟨.nil, htype⟩
  | .initializer block => (block.weaves h).map fun _ hblock => ⟨.nil, hblock⟩

theorem FieldDecl.weaves (h : t.Weaves decl name) : (field : FieldDecl) →
    Always (fun field' => Woven decl name (fieldEvents [.field field]) (fieldEvents [.field field']) ∧
      Woven decl name (Member.field field).events (Member.field field').events) (field.traverse t)
  | ⟨_, _, _, _, declarators, _⟩ =>
    (Declarator.weavesList h declarators).map fun _ hall => by
      refine ⟨?_, hall.inits⟩
      rw [fieldEvents, fieldEvents, List.flatMap_singleton, List.flatMap_singleton]
      exact hall.fields

theorem Method.weaves (h : t.Weaves decl name) : (method : Method) →
    Always (fun method' => Woven decl name (Member.method method).events
      (Member.method method').events) (method.traverse t)
  | ⟨id, _, _, _, _, _, _, params, _, body⟩ =>
    (h.decl id).map₃ (Always.mapM_binds .methodParam params (Param.weaves h))
      (Block.weavesOption h body) fun _ _ _ _ hparams hbody => (hparams.append hbody).enclosed

theorem Initializer.weaves (h : t.Weaves decl name) : (block : Initializer) →
    Always (fun block' => Woven decl name (Member.initializer block).events
      (Member.initializer block').events) (block.traverse t)
  | ⟨_, _, body⟩ => (body.weaves h).map fun _ hbody => hbody.1

theorem TypeDecl.weaves (h : t.Weaves decl name) : (type : TypeDecl) →
    Always (fun type' => Woven decl name type.events type'.events) (type.traverse t)
  | ⟨id, _, _, _, _, _, _, _, _, constants, members, _, _⟩ =>
    (h.decl id).map₃ (EnumConstant.weavesList h constants) (Member.weavesList h members)
      fun _ _ _ hid hconstants hmembers =>
        (((Woven.constants hid hconstants.2).append hmembers.fields).append
          hmembers.events |>.append hconstants.1).enclosed

theorem EnumConstant.weavesList (h : t.Weaves decl name) : (constants : List EnumConstant) →
    Always (fun constants' => Woven decl name (EnumConstant.eventsList constants)
      (EnumConstant.eventsList constants') ∧ constants'.map (·.name) = constants.map (·.name))
      (EnumConstant.traverseList t constants)
  | [] => .pure ⟨.nil, rfl⟩
  | ⟨_, _, _, args, body⟩ :: rest =>
    (Expr.weavesItems h args).map₃ (Member.weavesBody h body) (EnumConstant.weavesList h rest)
      fun _ _ _ hargs hbody hrest =>
        ⟨(hargs.append hbody).append hrest.1, congrArg (List.cons _) hrest.2⟩
end

end Traversal

end AdviceMigration.Source
