import AdviceMigration.Advice.Edit
import AdviceMigration.Proofs.Advice.References

/-!
# Usages and events

The walk that counts usages and the events that scopes are built from go through a tree in different ways: each has its own order, and only the walk passes over what is bound. They meet the same names in the same roles. So the usages of a declaration are its references.
-/

namespace AdviceMigration.Advice

open AdviceMigration.Source AdviceMigration.Scope

namespace Usages

@[simp] theorem none_add (usages : Usages) : .none + usages = usages := by
  cases usages
  exact congrArg₂ Usages.mk (Nat.zero_add _) (Nat.zero_add _)

@[simp] theorem add_none (usages : Usages) : usages + .none = usages := rfl

@[simp] theorem add_assoc (first second third : Usages) :
    first + second + third = first + (second + third) :=
  congrArg₂ Usages.mk (Nat.add_assoc _ _ _) (Nat.add_assoc _ _ _)

theorem add_comm (first second : Usages) : first + second = second + first :=
  congrArg₂ Usages.mk (Nat.add_comm _ _) (Nat.add_comm _ _)

@[simp] theorem reads_add (first second : Usages) :
    (first + second).reads = first.reads + second.reads := rfl

@[simp] theorem writes_add (first second : Usages) :
    (first + second).writes = first.writes + second.writes := rfl

end Usages

variable (refers : NodeId → Bool)

/-- The usage that an event stands for. -/
def usageIn : Event → Usages
  | .use .read _ id => if refers id then .read else .none
  | .use .write _ id => if refers id then .write else .none
  | .hold => .none
  | .open => .none
  | .release => .none
  | .swap => .none
  | .bind _ _ _ => .none
  | .effect => .none

/-- The usages that events stand for. -/
def usagesIn : List Event → Usages
  | [] => .none
  | event :: rest => usageIn refers event + usagesIn rest

@[simp] theorem usagesIn_nil : usagesIn refers [] = .none := rfl

@[simp] theorem usagesIn_cons (event : Event) (rest : List Event) :
    usagesIn refers (event :: rest) = usageIn refers event + usagesIn refers rest := rfl

@[simp] theorem usagesIn_append (events events' : List Event) :
    usagesIn refers (events ++ events') = usagesIn refers events + usagesIn refers events' := by
  induction events with
  | nil => simp
  | cons event rest ih => simp [ih]

@[simp] theorem usagesIn_map_bind {α : Type} (binder : Binder) (name : α → String)
    (id : α → NodeId) (items : List α) :
    usagesIn refers (items.map fun item => .bind binder (name item) (id item)) = .none := by
  induction items with
  | nil => rfl
  | cons item rest ih => simp [ih, usageIn]

@[simp] theorem usagesIn_fieldEvents (members : List Member) :
    usagesIn refers (fieldEvents members) = .none := by
  induction members with
  | nil => rfl
  | cons member rest ih =>
    rw [fieldEvents, List.flatMap_cons, usagesIn_append, ← fieldEvents, ih]
    cases member <;> simp

/-- Whether usages are those that events stand for. -/
def Counts (usages : Usages) (events : List Event) : Prop := usages = usagesIn refers events

namespace Counts

variable {refers} {usages usages' : Usages} {events events' : List Event}

theorem nil : Counts refers .none [] := rfl

theorem add (h : Counts refers usages events) (h' : Counts refers usages' events') :
    Counts refers (usages + usages') (events ++ events') :=
  (congrArg₂ (· + ·) h h').trans (usagesIn_append refers events events').symm

theorem cons {event : Event} (hevent : usageIn refers event = .none)
    (h : Counts refers usages events) : Counts refers usages (event :: events) := by
  rw [Counts, usagesIn_cons, hevent, Usages.none_add]
  exact h

theorem cons_effect (h : Counts refers usages events) : Counts refers usages (.effect :: events) :=
  h.cons rfl

/-- Names that are bound are not used. -/
theorem binds {binds : List Event} (hbinds : usagesIn refers binds = .none)
    (h : Counts refers usages events) : Counts refers usages (binds ++ events) := by
  rw [Counts, usagesIn_append, hbinds, Usages.none_add]
  exact h

theorem concat {event : Event} (h : Counts refers usages events)
    (hevent : usageIn refers event = .none) : Counts refers usages (events ++ [event]) :=
  h.add (nil.cons hevent)

theorem enclosed (h : Counts refers usages events) :
    Counts refers usages (Scope.enclosed events) :=
  (((h.cons rfl).cons rfl).concat rfl :
    Counts refers usages (.hold :: .open :: events ++ [Event.release]))

theorem held (h : Counts refers usages events) : Counts refers usages (Scope.held events) :=
  (h.cons rfl).concat rfl

theorem outside (h : Counts refers usages events) : Counts refers usages (Scope.outside events) :=
  (h.cons rfl).concat rfl

end Counts

end AdviceMigration.Advice

namespace AdviceMigration.Source

open AdviceMigration.Advice AdviceMigration.Scope

variable {refers : NodeId → Bool}

/-- A plain assignment to a bare name is a write, any other one reads its target. -/
theorem Expr.counts_assign (target : Expr) (op : AssignOp) (value : Expr)
    (htarget : Counts refers (target.usages refers) target.events)
    (hvalue : Counts refers (value.usages refers) value.events) :
    Counts refers ((Expr.assign target op value).usages refers)
      (Expr.assign target op value).events := by
  by_cases h : ∃ id name, target = .name id name ∧ op = .assign
  · obtain ⟨id, name, rfl, rfl⟩ := h
    rw [Counts, Expr.usages, Expr.events, usagesIn_cons, usagesIn_cons, ← hvalue, usageIn, usageIn,
      Usages.none_add]
    split
    · rfl
    · exact (Usages.none_add _).symm
  · have hplain : ∀ id name, target = .name id name → op = .assign → False :=
      fun id name htarget hop => h ⟨id, name, htarget, hop⟩
    rw [Expr.usages.eq_7 _ _ _ _ hplain, Expr.events.eq_7 _ _ _ hplain]
    exact htarget.cons_effect.add hvalue

mutual
theorem Expr.counts : (expr : Expr) → Counts refers (expr.usages refers) expr.events
  | .name id _ => by rw [Counts, Expr.usages, Expr.events, usagesIn_cons, usagesIn_nil, usageIn]; rfl
  | .literal _ => .nil
  | .field receiver _ => receiver.counts
  | .call receiver _ _ args => (Expr.countsOption receiver).cons_effect.add (Expr.countsList args)
  | .index array index => array.counts.add index.counts
  | .assign target op value => Expr.counts_assign target op value target.counts value.counts
  | .binary _ left right => left.counts.add right.counts
  | .unary _ operand => by
    rw [Expr.events]
    split
    · exact operand.counts.cons_effect
    · exact operand.counts
  | .conditional cond yes no => (cond.counts.add yes.counts).add no.counts
  | .cast _ operand => operand.counts
  | .instanceOf operand _ none => operand.counts
  | .instanceOf operand _ (some _) => operand.counts.concat rfl
  | .new outer _ args body =>
    ((Expr.countsOption outer).cons_effect.add (Expr.countsList args)).add (Member.countsBody body)
  | .newArray _ dims init => (Expr.countsDims dims).cons_effect.add (Expr.countsItems init)
  | .arrayInit items => Expr.countsList items
  | .lambda params _ body => (body.counts.binds (usagesIn_map_bind _ _ _ _ params)).enclosed
  | .methodRef target _ => target.counts
  | .classLiteral _ => .nil
  | .this => .nil
  | .super => .nil
  | .paren inner => inner.counts
  | .typeName _ => .nil

theorem Expr.countsList : (exprs : List Expr) →
    Counts refers (Expr.usagesList refers exprs) (Expr.eventsList exprs)
  | [] => .nil
  | expr :: rest => expr.counts.add (Expr.countsList rest)

theorem Expr.countsOption : (expr : Option Expr) →
    Counts refers (Expr.usagesOption refers expr) (Expr.eventsOption expr)
  | none => .nil
  | some expr => expr.counts

theorem Expr.countsDims : (dims : List (Option Expr)) →
    Counts refers (Expr.usagesDims refers dims) (Expr.eventsDims dims)
  | [] => .nil
  | dim :: rest => (Expr.countsOption dim).add (Expr.countsDims rest)

theorem Expr.countsItems : (items : Option (List Expr)) →
    Counts refers (Expr.usagesItems refers items) (Expr.eventsItems items)
  | none => .nil
  | some items => Expr.countsList items

theorem LambdaBody.counts : (body : LambdaBody) → Counts refers (body.usages refers) body.events
  | .expr value => value.counts
  | .block body => body.counts.1

/-- With and without a scope of its own a block has the same usages. -/
theorem Block.counts : (body : Block) → Counts refers (body.usages refers) body.events ∧
    Counts refers (body.usages refers) body.innerEvents
  | ⟨stmts, _, _⟩ => ⟨(Stmt.countsList stmts).enclosed, Stmt.countsList stmts⟩

theorem Block.countsOption : (body : Option Block) →
    Counts refers (Block.usagesOption refers body) (Block.eventsOption body)
  | none => .nil
  | some body => body.counts.1

theorem Stmt.countsList : (stmts : List Stmt) →
    Counts refers (Stmt.usagesList refers stmts) (Stmt.eventsList stmts)
  | [] => .nil
  | stmt :: rest => stmt.counts.add (Stmt.countsList rest)

theorem Stmt.counts : (stmt : Stmt) → Counts refers (stmt.usages refers) stmt.events
  | ⟨_, _, kind⟩ => kind.counts

theorem StmtKind.counts : (kind : StmtKind) → Counts refers (kind.usages refers) kind.events
  | .block body => body.counts.1
  | .localVar decl => decl.counts
  | .localClass decl => decl.counts
  | .expr value => value.counts
  | .ret value => Expr.countsOption value
  | .ifElse cond yes none => cond.counts.add yes.counts.enclosed
  | .ifElse cond yes (some no) =>
    (cond.counts.add yes.counts.enclosed).add no.counts.enclosed
  | .whileLoop cond body => cond.counts.add body.counts.enclosed
  | .doWhile body cond => body.counts.enclosed.add cond.counts
  | .forLoop init cond update body =>
    (((init.counts.add (Expr.countsOption cond)).add (Expr.countsList update)).add
      body.counts.enclosed).enclosed
  | .forEach _ iterable body => iterable.counts.add (body.counts.cons rfl).enclosed
  | .tryBlock resources body catches finallyBody => by
    have hguarded : Counts refers (Resource.usagesList refers resources + body.usages refers)
        (enclosed (Resource.eventsList resources ++ body.events)) :=
      ((Resource.countsList resources).add body.counts.1).enclosed
    exact (hguarded.add (CatchClause.countsList catches)).add (Block.countsOption finallyBody)
  | .throw value => value.counts
  | .breakTo _ => .nil
  | .continueTo _ => .nil
  | .switch selector cases => selector.counts.add (SwitchCase.countsList cases).enclosed
  | .sync lock body => lock.counts.add body.counts.1
  | .labeled _ body => body.counts.held
  | .assertion cond message => cond.counts.add (Expr.countsOption message)
  | .empty => .nil

theorem ForInit.counts : (init : ForInit) → Counts refers (init.usages refers) init.events
  | .decl decl => decl.counts
  | .exprs values => Expr.countsList values

theorem Resource.countsList : (resources : List Resource) →
    Counts refers (Resource.usagesList refers resources) (Resource.eventsList resources)
  | [] => .nil
  | .decl decl :: rest => decl.counts.add (Resource.countsList rest)
  | .expr value :: rest => value.counts.add (Resource.countsList rest)

theorem CatchClause.countsList : (clauses : List CatchClause) →
    Counts refers (CatchClause.usagesList refers clauses) (CatchClause.eventsList clauses)
  | [] => .nil
  | ⟨_, _, _, _, _, body⟩ :: rest =>
    (body.counts.1.cons rfl).enclosed.add (CatchClause.countsList rest)

theorem SwitchCase.countsList : (cases : List SwitchCase) →
    Counts refers (SwitchCase.usagesList refers cases) (SwitchCase.eventsList cases)
  | [] => .nil
  | ⟨_, labels, _, .colon, body⟩ :: rest =>
    ((Expr.countsList labels).outside.add body.counts.2).add (SwitchCase.countsList rest)
  | ⟨_, labels, _, .arrowBlock, body⟩ :: rest =>
    ((Expr.countsList labels).add body.counts.1).outside.add (SwitchCase.countsList rest)
  | ⟨_, labels, _, .arrowSingle, body⟩ :: rest =>
    ((Expr.countsList labels).add body.counts.1).outside.add (SwitchCase.countsList rest)

theorem LocalVar.counts : (decl : LocalVar) → Counts refers (decl.usages refers) decl.events
  | ⟨_, _, _, declarators⟩ => (Declarator.countsList declarators).1

/-- The initial values of variables and of fields are met alike. -/
theorem Declarator.countsList : (declarators : List Declarator) →
    Counts refers (Declarator.usagesList refers declarators) (Declarator.eventsList declarators) ∧
    Counts refers (Declarator.usagesList refers declarators) (Declarator.initEvents declarators)
  | [] => ⟨.nil, .nil⟩
  | ⟨_, _, _, init⟩ :: rest =>
    ⟨(((Expr.countsOption init).cons rfl).cons rfl).add (Declarator.countsList rest).1,
      (Expr.countsOption init).add (Declarator.countsList rest).2⟩

theorem Member.countsBody : (members : Option (List Member)) →
    Counts refers (Member.usagesBody refers members) (Member.eventsBody members)
  | none => .nil
  | some members => ((Member.countsList members).binds (usagesIn_fieldEvents _ members)).enclosed

theorem Member.countsList : (members : List Member) →
    Counts refers (Member.usagesList refers members) (Member.eventsList members)
  | [] => .nil
  | member :: rest => member.counts.add (Member.countsList rest)

theorem Member.counts : (member : Member) → Counts refers (member.usages refers) member.events
  | .field ⟨_, _, _, _, declarators, _⟩ => (Declarator.countsList declarators).2
  | .method ⟨_, _, _, _, _, _, _, params, _, body⟩ =>
    ((Block.countsOption body).binds (usagesIn_map_bind _ _ _ _ params)).enclosed
  | .type decl => decl.counts
  | .initializer ⟨_, _, body⟩ => body.counts.1

/-- The walk meets the constants first, the events last. -/
theorem TypeDecl.counts : (decl : TypeDecl) → Counts refers (decl.usages refers) decl.events
  | ⟨id, _, _, _, _, _, _, _, _, constants, members, _, _⟩ => by
    have hbinds : usagesIn refers (constantEvents id constants ++ fieldEvents members) = .none := by
      rw [usagesIn_append, usagesIn_fieldEvents, constantEvents, usagesIn_map_bind, Usages.add_none]
    rw [TypeDecl.usages, Usages.add_comm]
    exact (((Member.countsList members).binds hbinds).add
      (EnumConstant.countsList constants)).enclosed

theorem EnumConstant.countsList : (constants : List EnumConstant) →
    Counts refers (EnumConstant.usagesList refers constants) (EnumConstant.eventsList constants)
  | [] => .nil
  | ⟨_, _, _, args, body⟩ :: rest =>
    ((Expr.countsItems args).add (Member.countsBody body)).add (EnumConstant.countsList rest)
end

end AdviceMigration.Source

namespace AdviceMigration.Advice

open AdviceMigration.Source AdviceMigration.Scope

/-! ### Usages of a declaration -/

theorem usagesOf_eq (method : Method) (decl : NodeId) :
    usagesOf method decl = usagesIn (isReference (BodyScopes.ofMethod method) decl)
      (BodyScopes.eventsOf method) :=
  (Block.countsOption method.body).binds (usagesIn_map_bind _ _ _ _ method.params)

/-- Each name that counts does so once. -/
theorem reads_add_writes (refers : NodeId → Bool) (events : List Event) :
    (usagesIn refers events).reads + (usagesIn refers events).writes =
      (namesOf events).countP fun name => refers name.1 := by
  induction events with
  | nil => rfl
  | cons event rest ih =>
    rw [usagesIn_cons, Usages.reads_add, Usages.writes_add]
    cases event with
    | use role name id =>
      rw [namesOf, List.countP_cons, ← ih]
      cases role <;> cases hrefers : refers id <;>
        simp [usageIn, hrefers, Usages.none, Usages.read, Usages.write] <;> omega
    | _ => simp [usageIn, Usages.none, ← ih]

theorem names_eq_map_uses (method : Method) : method.names =
    (BodyScopes.ofMethod method).uses.map fun occurrence => (occurrence.id, occurrence.name) := by
  have hreferences := congrArg (List.map fun reference => (reference.id, reference.name))
    (BodyScopes.map_uses_ofMethod method)
  rw [List.map_map, BodyScopes.referencesOf, Reading.references, List.map_map] at hreferences
  rw [Method.names, ScopeReader.reading.namesOf_eq .start]
  exact hreferences.symm

theorem isReference_of_refersTo {method : Method} {decl : NodeId} {occurrence : NameUse}
    (hmem : occurrence ∈ (BodyScopes.ofMethod method).uses)
    (h : BodyScopes.refersTo occurrence decl = true) :
    isReference (BodyScopes.ofMethod method) decl occurrence.id = true :=
  List.any_eq_true.2 ⟨occurrence, List.mem_filter.2 ⟨hmem, h⟩, beq_self_eq_true _⟩

/-- No occurrence refers to a declaration that is not used. -/
theorem not_refersTo_of_isUnused {method : Method} {decl : NodeId}
    (h : (usagesOf method decl).isUnused) {occurrence : NameUse}
    (hmem : occurrence ∈ (BodyScopes.ofMethod method).uses) :
    BodyScopes.refersTo occurrence decl = false := by
  rw [Usages.isUnused, Bool.and_eq_true, beq_iff_eq, beq_iff_eq] at h
  have hnone : method.names.countP
      (fun name => isReference (BodyScopes.ofMethod method) decl name.1) = 0 := by
    rw [Method.names, ← reads_add_writes, ← usagesOf_eq, h.1, h.2]
  by_contra hrefers
  have hname : (occurrence.id, occurrence.name) ∈ method.names :=
    names_eq_map_uses method ▸ List.mem_map_of_mem hmem
  exact List.countP_eq_zero.1 hnone _ hname
    (isReference_of_refersTo hmem (by simpa using hrefers))

end AdviceMigration.Advice
