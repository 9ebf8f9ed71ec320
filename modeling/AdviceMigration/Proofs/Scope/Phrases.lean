import AdviceMigration.Proofs.Scope.View

/-!
# The grammar of events

Events are not arbitrary lists: what is held is released, scopes are left as they were entered, and only declarations reach beyond the expression or statement they stand in. `Phrase` is the grammar that the events of every tree follow. What an expression says leaves a view as it was, and what statements say does not depend on what was held before them.
-/

namespace AdviceMigration.Scope

open AdviceMigration.Source

/-- What a list of events comes from: an expression, which declares nothing beyond itself, statements, which may, or the cases of a `switch`, which also step out of the scope around them. -/
inductive Form where
  | expression
  | statements
  | cases
  deriving DecidableEq

/-- The grammar of events. -/
inductive Phrase : Form → List Event → Prop where
  | nil : Phrase .expression []
  | append {form : Form} {events events' : List Event} (h : Phrase form events)
      (h' : Phrase form events') : Phrase form (events ++ events')
  | statements {events : List Event} (h : Phrase .expression events) : Phrase .statements events
  | cases {events : List Event} (h : Phrase .statements events) : Phrase .cases events
  | effect : Phrase .expression [.effect]
  | use {role : Role} {name : String} {id : NodeId} : Phrase .expression [.use role name id]
  | pattern {name : String} {id : NodeId} : Phrase .expression [.bind .pattern name id]
  | declare {name : String} {id : NodeId} : Phrase .statements [.open, .bind .variable name id]
  | outside {events : List Event} (h : Phrase .expression events) : Phrase .cases (outside events)
  | enclosed {binds events : List Event}
      (hbinds : ∀ event ∈ binds, ∃ binder name id, event = .bind binder name id)
      (h : Phrase .cases events) : Phrase .expression (enclosed (binds ++ events))
  | held {events : List Event} (h : Phrase .statements events) : Phrase .expression (held events)

namespace Phrase

variable {events events' : List Event}

theorem cons_effect (h : Phrase .expression events) : Phrase .expression (.effect :: events) :=
  .append .effect h

theorem enclosed_statements (h : Phrase .statements events) :
    Phrase .expression (Scope.enclosed events) :=
  .enclosed (List.forall_mem_nil _) h.cases

end Phrase

/-! ### Trees -/

theorem binds_map {α : Type} (binder : Binder) (name : α → String) (id : α → NodeId)
    (items : List α) : ∀ event ∈ items.map (fun item => Event.bind binder (name item) (id item)),
      ∃ binder name id, event = .bind binder name id := by
  intro event hevent
  obtain ⟨item, -, rfl⟩ := List.mem_map.1 hevent
  exact ⟨_, _, _, rfl⟩

theorem binds_fieldEvents (members : List Member) :
    ∀ event ∈ fieldEvents members, ∃ binder name id, event = .bind binder name id := by
  intro event hevent
  obtain ⟨member, -, hevent⟩ := List.mem_flatMap.1 hevent
  cases member with
  | field decl => exact binds_map _ _ _ _ event hevent
  | _ => cases hevent

end AdviceMigration.Scope

namespace AdviceMigration.Source

open AdviceMigration.Scope

mutual
theorem Expr.phrase : (expr : Expr) → Phrase .expression expr.events
  | .name _ _ => .use
  | .literal _ => .nil
  | .field receiver _ => receiver.phrase
  | .call receiver _ _ args =>
    ((Expr.phraseOption receiver).cons_effect).append (Expr.phraseList args)
  | .index array index => array.phrase.append index.phrase
  | .assign target op value => by
    rcases Expr.events_assign target op value with ⟨id, name, -, -, h⟩ | h
    · rw [h]
      exact (Phrase.use.append value.phrase).cons_effect
    · rw [h]
      exact target.phrase.cons_effect.append value.phrase
  | .binary _ left right => left.phrase.append right.phrase
  | .unary op operand => by
    rw [Expr.events]
    split
    · exact operand.phrase.cons_effect
    · exact operand.phrase
  | .conditional cond yes no => (cond.phrase.append yes.phrase).append no.phrase
  | .cast _ operand => operand.phrase
  | .instanceOf operand _ none => operand.phrase
  | .instanceOf operand _ (some _) => operand.phrase.append .pattern
  | .new outer _ args body =>
    (((Expr.phraseOption outer).cons_effect).append (Expr.phraseList args)).append
      (Member.phraseBody body)
  | .newArray _ dims init => ((Expr.phraseDims dims).cons_effect).append (Expr.phraseItems init)
  | .arrayInit items => Expr.phraseList items
  | .lambda params _ body => .enclosed (binds_map _ _ _ params) body.phrase.statements.cases
  | .methodRef target _ => target.phrase
  | .classLiteral _ => .nil
  | .this => .nil
  | .super => .nil
  | .paren inner => inner.phrase
  | .typeName _ => .nil

theorem Expr.phraseList : (exprs : List Expr) → Phrase .expression (Expr.eventsList exprs)
  | [] => .nil
  | expr :: rest => expr.phrase.append (Expr.phraseList rest)

theorem Expr.phraseOption : (expr : Option Expr) → Phrase .expression (Expr.eventsOption expr)
  | none => .nil
  | some expr => expr.phrase

theorem Expr.phraseDims : (dims : List (Option Expr)) →
    Phrase .expression (Expr.eventsDims dims)
  | [] => .nil
  | dim :: rest => (Expr.phraseOption dim).append (Expr.phraseDims rest)

theorem Expr.phraseItems : (items : Option (List Expr)) →
    Phrase .expression (Expr.eventsItems items)
  | none => .nil
  | some items => Expr.phraseList items

theorem LambdaBody.phrase : (body : LambdaBody) → Phrase .expression body.events
  | .expr value => value.phrase
  | .block body => body.phrase

theorem Block.phrase : (body : Block) → Phrase .expression body.events
  | ⟨stmts, _, _⟩ => (Stmt.phraseList stmts).enclosed_statements

theorem Block.phraseOption : (body : Option Block) → Phrase .expression (Block.eventsOption body)
  | none => .nil
  | some body => body.phrase

theorem Stmt.phraseList : (stmts : List Stmt) → Phrase .statements (Stmt.eventsList stmts)
  | [] => Phrase.nil.statements
  | stmt :: rest => stmt.phrase.append (Stmt.phraseList rest)

theorem Stmt.phrase : (stmt : Stmt) → Phrase .statements stmt.events
  | ⟨_, _, kind⟩ => kind.phrase

theorem StmtKind.phrase : (kind : StmtKind) → Phrase .statements kind.events
  | .block body => body.phrase.statements
  | .localVar decl => decl.phrase
  | .localClass decl => decl.phrase.statements
  | .expr value => value.phrase.statements
  | .ret value => (Expr.phraseOption value).statements
  | .ifElse cond yes none => (cond.phrase.append yes.phrase.enclosed_statements).statements
  | .ifElse cond yes (some no) =>
    ((cond.phrase.append yes.phrase.enclosed_statements).append
      no.phrase.enclosed_statements).statements
  | .whileLoop cond body => (cond.phrase.append body.phrase.enclosed_statements).statements
  | .doWhile body cond => (body.phrase.enclosed_statements.append cond.phrase).statements
  | .forLoop init cond update body =>
    (Phrase.enclosed_statements (((init.phrase.append (Expr.phraseOption cond).statements).append
      (Expr.phraseList update).statements).append
      body.phrase.enclosed_statements.statements)).statements
  | .forEach var iterable body =>
    (iterable.phrase.append (.enclosed (binds_map .variable LoopVar.name LoopVar.id [var])
      body.phrase.cases)).statements
  | .tryBlock resources body catches finallyBody =>
    (((Phrase.enclosed_statements ((Resource.phraseList resources).append
      body.phrase.statements)).append (CatchClause.phraseList catches)).append
      (Block.phraseOption finallyBody)).statements
  | .throw value => value.phrase.statements
  | .breakTo _ => Phrase.nil.statements
  | .continueTo _ => Phrase.nil.statements
  | .switch selector cases =>
    (selector.phrase.append (.enclosed (List.forall_mem_nil _)
      (SwitchCase.phraseList cases))).statements
  | .sync lock body => (lock.phrase.append body.phrase).statements
  | .labeled _ body => body.phrase.held.statements
  | .assertion cond message => (cond.phrase.append (Expr.phraseOption message)).statements
  | .empty => Phrase.nil.statements

theorem ForInit.phrase : (init : ForInit) → Phrase .statements init.events
  | .decl decl => decl.phrase
  | .exprs values => (Expr.phraseList values).statements

theorem Resource.phraseList : (resources : List Resource) →
    Phrase .statements (Resource.eventsList resources)
  | [] => Phrase.nil.statements
  | .decl decl :: rest => decl.phrase.append (Resource.phraseList rest)
  | .expr value :: rest => value.phrase.statements.append (Resource.phraseList rest)

theorem CatchClause.phraseList : (clauses : List CatchClause) →
    Phrase .expression (CatchClause.eventsList clauses)
  | [] => .nil
  | ⟨id, _, _, _, name, body⟩ :: rest =>
    (Phrase.enclosed (binds_map .catchParam (fun _ => name) (fun _ => id) [()])
      body.phrase.statements.cases).append (CatchClause.phraseList rest)

theorem SwitchCase.phraseList : (cases : List SwitchCase) →
    Phrase .cases (SwitchCase.eventsList cases)
  | [] => Phrase.nil.statements.cases
  | ⟨_, labels, _, .colon, ⟨stmts, _, _⟩⟩ :: rest =>
    ((Phrase.outside (Expr.phraseList labels)).append (Stmt.phraseList stmts).cases).append
      (SwitchCase.phraseList rest)
  | ⟨_, labels, _, .arrowBlock, body⟩ :: rest =>
    (Phrase.outside ((Expr.phraseList labels).append body.phrase)).append
      (SwitchCase.phraseList rest)
  | ⟨_, labels, _, .arrowSingle, body⟩ :: rest =>
    (Phrase.outside ((Expr.phraseList labels).append body.phrase)).append
      (SwitchCase.phraseList rest)

theorem LocalVar.phrase : (decl : LocalVar) → Phrase .statements decl.events
  | ⟨_, _, _, declarators⟩ => (Declarator.phraseList declarators).1

/-- Variables are declared for the statements after them; fields have been bound before. -/
theorem Declarator.phraseList : (declarators : List Declarator) →
    Phrase .statements (Declarator.eventsList declarators) ∧
      Phrase .expression (Declarator.initEvents declarators)
  | [] => ⟨Phrase.nil.statements, .nil⟩
  | ⟨_, _, _, init⟩ :: rest =>
    ⟨(Phrase.declare.append (Expr.phraseOption init).statements).append
      (Declarator.phraseList rest).1,
      (Expr.phraseOption init).append (Declarator.phraseList rest).2⟩

theorem Member.phraseBody : (members : Option (List Member)) →
    Phrase .expression (Member.eventsBody members)
  | none => .nil
  | some members =>
    .enclosed (binds_fieldEvents members) (Member.phraseList members).statements.cases

theorem Member.phraseList : (members : List Member) →
    Phrase .expression (Member.eventsList members)
  | [] => .nil
  | member :: rest => member.phrase.append (Member.phraseList rest)

theorem Member.phrase : (member : Member) → Phrase .expression member.events
  | .field ⟨_, _, _, _, declarators, _⟩ => (Declarator.phraseList declarators).2
  | .method ⟨_, _, _, _, _, _, _, params, _, body⟩ =>
    .enclosed (binds_map _ _ _ params) (Block.phraseOption body).statements.cases
  | .type decl => decl.phrase
  | .initializer ⟨_, _, body⟩ => body.phrase

theorem TypeDecl.phrase : (decl : TypeDecl) → Phrase .expression decl.events
  | ⟨id, _, _, _, _, _, _, _, _, constants, members, _, _⟩ => by
    rw [TypeDecl.events, List.append_assoc _ (Member.eventsList members)]
    refine .enclosed ?_ ((Member.phraseList members).append
      (EnumConstant.phraseList constants)).statements.cases
    intro event hevent
    rcases List.mem_append.1 hevent with hevent | hevent
    · exact binds_map .enumConstant EnumConstant.name (fun _ => id) constants event hevent
    · exact binds_fieldEvents members event hevent

theorem EnumConstant.phraseList : (constants : List EnumConstant) →
    Phrase .expression (EnumConstant.eventsList constants)
  | [] => .nil
  | ⟨_, _, _, args, body⟩ :: rest =>
    ((Expr.phraseItems args).append (Member.phraseBody body)).append
      (EnumConstant.phraseList rest)
end

theorem Block.phrase_innerEvents : (body : Block) → Phrase .statements body.innerEvents
  | ⟨stmts, _, _⟩ => Stmt.phraseList stmts

end AdviceMigration.Source

namespace AdviceMigration.Scope

open AdviceMigration.Source

/-! ### Phrases without pattern variables -/

/-- Whether events bind no pattern variable. -/
def PatternFree (events : List Event) : Prop := ∀ name id, .bind .pattern name id ∉ events

@[simp] theorem patternFree_append {events events' : List Event} :
    PatternFree (events ++ events') ↔ PatternFree events ∧ PatternFree events' := by
  constructor
  · intro h
    exact ⟨fun name id hmem => h name id (List.mem_append_left _ hmem),
      fun name id hmem => h name id (List.mem_append_right _ hmem)⟩
  · rintro ⟨h, h'⟩ name id hmem
    exact (List.mem_append.1 hmem).elim (h name id) (h' name id)

theorem PatternFree.inside {before events after : List Event}
    (h : PatternFree (before ++ events ++ after)) : PatternFree events :=
  (patternFree_append.1 (patternFree_append.1 h).1).2

/-- Names are bound in fresh scopes only. -/
theorem Phrase.disciplined {form : Form} {events : List Event} (h : Phrase form events)
    (hfree : PatternFree events) : Disciplined false events := by
  induction h with
  | nil => trivial
  | append _ _ ih ih' =>
    obtain ⟨hfree, hfree'⟩ := patternFree_append.1 hfree
    exact (ih hfree).append (ih' hfree')
  | statements _ ih => exact ih hfree
  | cases _ ih => exact ih hfree
  | effect => trivial
  | use => trivial
  | pattern => exact absurd List.mem_cons_self (hfree _ _)
  | declare => exact ⟨rfl, trivial⟩
  | @outside events _ ih =>
    have hinner : PatternFree events := @PatternFree.inside [.swap] _ _ hfree
    exact (ih hinner).append trivial
  | @enclosed binds events hbinds _ ih =>
    have hinner := patternFree_append.1 (@PatternFree.inside [.hold, .open] _ _ hfree)
    have hrest : Disciplined false (events ++ [Event.release]) := (ih hinner.2).append trivial
    have hbound := disciplined_binds hbinds (hrest.of_false true)
    rwa [← List.append_assoc] at hbound
  | @held events _ ih =>
    have hinner : PatternFree events := @PatternFree.inside [.hold] _ _ hfree
    exact (ih hinner).append trivial

/-- Names bound one after the other, perhaps in a new scope. -/
theorem after_binds {binds : List Event} (hbinds : ∀ event ∈ binds,
    event = .open ∨ ∃ binder name id, event = .bind binder name id) (names : Names) :
    ∃ names', ∀ held, View.reading.after ⟨names, held⟩ binds = ⟨names', held⟩ ∧
      View.reading.references ⟨names, held⟩ binds = [] := by
  induction binds generalizing names with
  | nil => exact ⟨names, fun _ => ⟨rfl, rfl⟩⟩
  | cons event rest ih =>
    have hrest := ih fun event hevent => hbinds event (List.mem_cons_of_mem _ hevent)
    rcases hbinds event List.mem_cons_self with rfl | ⟨binder, name, id, rfl⟩
    · exact hrest names
    · exact hrest (names.set name (binder.resolution id))

/-- What a phrase says does not depend on what is held below what it uses itself, and it leaves what is held as it was. The cases of a `switch` use the scope that was held last. -/
def Framed (form : Form) (events : List Event) : Prop :=
  ∀ names base, (form = .cases → base ≠ []) → ∃ names', (form = .expression → names' = names) ∧
    ∀ below, View.reading.after ⟨names, base ++ below⟩ events = ⟨names', base ++ below⟩ ∧
      View.reading.references ⟨names, base ++ below⟩ events =
        View.reading.references ⟨names, base⟩ events

theorem Framed.append {form : Form} {events events' : List Event} (h : Framed form events)
    (h' : Framed form events') : Framed form (events ++ events') := by
  intro names base hbase
  obtain ⟨names₁, hsame₁, hbelow₁⟩ := h names base hbase
  obtain ⟨names₂, hsame₂, hbelow₂⟩ := h' names₁ base hbase
  refine ⟨names₂, fun hform => (hsame₂ hform).trans (hsame₁ hform), fun below => ?_⟩
  have hbase₁ := (hbelow₁ []).1
  rw [List.append_nil] at hbase₁
  rw [Reading.after_append, Reading.references_append, Reading.references_append,
    (hbelow₁ below).1, (hbelow₁ below).2, (hbelow₂ below).1, (hbelow₂ below).2, hbase₁]
  exact ⟨rfl, rfl⟩

theorem Framed.mono {form form' : Form} {events : List Event} (h : Framed form events)
    (hcases : form = .cases → form' = .cases) (hexpression : form' = .expression → form = form') :
    Framed form' events := by
  intro names base hbase
  obtain ⟨names', hsame, hbelow⟩ := h names base (hbase ∘ hcases)
  exact ⟨names', fun hform => hsame ((hexpression hform).trans hform), hbelow⟩

/-- Events between holding a scope and releasing it. -/
theorem Framed.between {binds events : List Event} (hbinds : ∀ event ∈ binds,
    event = .open ∨ ∃ binder name id, event = .bind binder name id) (h : Framed .cases events) :
    Framed .expression (.hold :: (binds ++ events ++ [Event.release])) := by
  intro names base _
  obtain ⟨names₁, hbound⟩ := after_binds hbinds names
  obtain ⟨names₂, -, hbelow⟩ := h names₁ (names :: base) (fun _ => List.cons_ne_nil _ _)
  refine ⟨names, fun _ => rfl, fun below => ?_⟩
  have hhold : ∀ held, View.reading.move ⟨names, held⟩ .hold = ⟨names, names :: held⟩ :=
    fun _ => rfl
  have hreferences : ∀ held rest, View.reading.references ⟨names, held⟩ (.hold :: rest) =
      View.reading.references ⟨names, names :: held⟩ rest := fun _ _ => rfl
  have hbase := hbelow []
  rw [List.append_nil] at hbase
  have hbelow' := hbelow below
  rw [List.cons_append] at hbelow'
  constructor
  · rw [Reading.after_cons, hhold, Reading.after_append, Reading.after_append,
      (hbound (names :: (base ++ below))).1, hbelow'.1]
    rfl
  · rw [hreferences, hreferences]
    simp only [Reading.references_append, Reading.after_append, (hbound _).1, (hbound _).2,
      hbelow'.1, hbelow'.2, hbase.1]
    rfl

theorem Phrase.framed {form : Form} {events : List Event} (h : Phrase form events)
    (hfree : PatternFree events) : Framed form events := by
  induction h with
  | nil => exact fun names base _ => ⟨names, fun _ => rfl, fun _ => ⟨rfl, rfl⟩⟩
  | append _ _ ih ih' =>
    obtain ⟨hfree, hfree'⟩ := patternFree_append.1 hfree
    exact (ih hfree).append (ih' hfree')
  | statements _ ih => exact (ih hfree).mono (by simp) (by simp)
  | cases _ ih => exact (ih hfree).mono (by simp) (by simp)
  | effect => exact fun names base _ => ⟨names, fun _ => rfl, fun _ => ⟨rfl, rfl⟩⟩
  | use => exact fun names base _ => ⟨names, fun _ => rfl, fun _ => ⟨rfl, rfl⟩⟩
  | pattern => exact absurd List.mem_cons_self (hfree _ _)
  | @declare name id =>
    exact fun names base _ => ⟨names.set name (.variable id), by simp, fun _ => ⟨rfl, rfl⟩⟩
  | @outside events _ ih =>
    have hinner : PatternFree events := @PatternFree.inside [.swap] _ _ hfree
    intro names base hbase
    obtain ⟨outer, base, rfl⟩ := List.exists_cons_of_ne_nil (hbase rfl)
    obtain ⟨names', hsame, hbelow⟩ := ih hinner outer (names :: base) (by simp)
    obtain rfl := hsame rfl
    refine ⟨names, by simp, fun below => ?_⟩
    have hswap : ∀ held, View.reading.move ⟨names, names' :: held⟩ .swap =
        ⟨names', names :: held⟩ := fun _ => rfl
    have hback : ∀ held, View.reading.after ⟨names', names :: held⟩ [.swap] =
        ⟨names, names' :: held⟩ := fun _ => rfl
    have hreferences : ∀ held rest, View.reading.references ⟨names, names' :: held⟩
        (.swap :: rest) = View.reading.references ⟨names', names :: held⟩ rest := fun _ _ => rfl
    have hbelow' := hbelow below
    rw [List.cons_append] at hbelow'
    rw [Scope.outside, List.cons_append, List.cons_append, Reading.after_cons, hswap,
      Reading.after_append, hbelow'.1, hback, hreferences, hreferences, Reading.references_append,
      Reading.references_append, hbelow'.2]
    exact ⟨rfl, rfl⟩
  | @enclosed binds events hbinds _ ih =>
    have hinner := patternFree_append.1 (@PatternFree.inside [.hold, .open] _ _ hfree)
    refine @Framed.between (.open :: binds) events ?_ (ih hinner.2)
    intro event hevent
    rcases List.mem_cons.1 hevent with rfl | hevent
    · exact .inl rfl
    · exact .inr (hbinds event hevent)
  | @held events _ ih =>
    have hinner : PatternFree events := @PatternFree.inside [.hold] _ _ hfree
    exact ((ih hinner).mono (by simp) (by simp)).between (List.forall_mem_nil _)

end AdviceMigration.Scope
