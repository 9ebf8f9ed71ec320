import AdviceMigration.Source.Node

/-!
# Scope events

What a method body says about names, in the order in which it says it: scopes open and close, names are bound, names are used. The events are all that resolution needs, so the questions of this library about names are folds over one list instead of traversals of the tree.

Four events move between scopes. `hold` remembers the current scope and `release` returns to the one remembered last; `open` makes a new scope inside the current one the current scope; `swap` exchanges the current scope with the one remembered last. A block holds, opens, and releases. A declared variable opens a scope that lasts until the enclosing block releases, so that it is visible from its own initial value on. The labels of a case belong to the scope around the `switch`, while the statements of all its cases share one scope: `swap` steps out and in again.
-/

namespace AdviceMigration.Scope

open AdviceMigration.Source

inductive Binder where
  | methodParam
  | lambdaParam
  | variable
  | catchParam
  | pattern
  | field
  | enumConstant
  deriving DecidableEq, Repr, Inhabited

/-- What an occurrence of a name is for: the bare target of a plain assignment, or anything else. -/
inductive Role where
  | read
  | write
  deriving DecidableEq, Repr, Inhabited

/-- What a method body says about names. -/
inductive Event where
  | hold
  | open
  | release
  | swap
  /-- A name stands for a declaration from here on, in the current scope. -/
  | bind (binder : Binder) (name : String) (id : NodeId)
  /-- A name occurs in the current scope. -/
  | use (role : Role) (name : String) (id : NodeId)
  /-- An assignment, an increment, a call or an allocation. -/
  | effect
  deriving DecidableEq, Repr, Inhabited

/-- Events inside a scope of their own. -/
def enclosed (events : List Event) : List Event :=
  [.hold, .open] ++ events ++ [.release]

/-- Events after which the current scope is the same as before, whatever they open. -/
def held (events : List Event) : List Event :=
  .hold :: events ++ [.release]

/-- Events in the scope around the current one. -/
def outside (events : List Event) : List Event :=
  .swap :: events ++ [.swap]

/-- The fields of a class body, which are visible in all of it. -/
def fieldEvents (members : List Member) : List Event :=
  members.flatMap fun member =>
    match member with
    | .field field => field.declarators.map fun d => .bind .field d.name d.id
    | _ => []

/-- The constants of an enum, which are visible in all of it and stand for the enum itself. -/
def constantEvents (id : NodeId) (constants : List EnumConstant) : List Event :=
  constants.map fun constant => .bind .enumConstant constant.name id

end AdviceMigration.Scope

namespace AdviceMigration.Source

open AdviceMigration.Scope

mutual
/-- What an expression says about names. -/
def Expr.events : Expr → List Event
  | .name id name => [.use .read name id]
  | .literal _ => []
  | .field receiver _ => receiver.events
  | .call receiver _ _ args => .effect :: Expr.eventsOption receiver ++ Expr.eventsList args
  | .index array index => array.events ++ index.events
  | .assign (.name id name) .assign value => .effect :: .use .write name id :: value.events
  | .assign target _ value => .effect :: target.events ++ value.events
  | .binary _ left right => left.events ++ right.events
  | .unary op operand => if op.hasSideEffects then .effect :: operand.events else operand.events
  | .conditional cond yes no => cond.events ++ yes.events ++ no.events
  | .cast _ operand => operand.events
  | .instanceOf operand _ none => operand.events
  | .instanceOf operand _ (some binding) =>
    operand.events ++ [.bind .pattern binding.name binding.id]
  | .new outer _ args body =>
    .effect :: Expr.eventsOption outer ++ Expr.eventsList args ++ Member.eventsBody body
  | .newArray _ dims init => .effect :: Expr.eventsDims dims ++ Expr.eventsItems init
  | .arrayInit items => Expr.eventsList items
  | .lambda params _ body =>
    enclosed ((params.map fun param => .bind .lambdaParam param.name param.id) ++ body.events)
  | .methodRef target _ => target.events
  | .classLiteral _ => []
  | .this => []
  | .super => []
  | .paren inner => inner.events
  | .typeName _ => []

def Expr.eventsList : List Expr → List Event
  | [] => []
  | expr :: rest => expr.events ++ Expr.eventsList rest

def Expr.eventsOption : Option Expr → List Event
  | none => []
  | some expr => expr.events

def Expr.eventsDims : List (Option Expr) → List Event
  | [] => []
  | dim :: rest => Expr.eventsOption dim ++ Expr.eventsDims rest

def Expr.eventsItems : Option (List Expr) → List Event
  | none => []
  | some items => Expr.eventsList items

def LambdaBody.events : LambdaBody → List Event
  | .expr value => value.events
  | .block body => body.events

/-- What a block says, in a scope of its own. -/
def Block.events : Block → List Event
  | ⟨stmts, _, _⟩ => enclosed (Stmt.eventsList stmts)

/-- What a block says without a scope of its own. -/
def Block.innerEvents : Block → List Event
  | ⟨stmts, _, _⟩ => Stmt.eventsList stmts

def Block.eventsOption : Option Block → List Event
  | none => []
  | some body => body.events

def Stmt.eventsList : List Stmt → List Event
  | [] => []
  | stmt :: rest => stmt.events ++ Stmt.eventsList rest

def Stmt.events : Stmt → List Event
  | ⟨_, _, kind⟩ => kind.events

def StmtKind.events : StmtKind → List Event
  | .block body => body.events
  | .localVar decl => decl.events
  | .localClass decl => decl.events
  | .expr value => value.events
  | .ret value => Expr.eventsOption value
  | .ifElse cond yes none => cond.events ++ enclosed yes.events
  | .ifElse cond yes (some no) => cond.events ++ enclosed yes.events ++ enclosed no.events
  | .whileLoop cond body => cond.events ++ enclosed body.events
  | .doWhile body cond => enclosed body.events ++ cond.events
  | .forLoop init cond update body =>
    enclosed (init.events ++ Expr.eventsOption cond ++ Expr.eventsList update ++
      enclosed body.events)
  | .forEach var iterable body =>
    iterable.events ++ enclosed (.bind .variable var.name var.id :: body.events)
  | .tryBlock resources body catches finallyBody =>
    enclosed (Resource.eventsList resources ++ body.events) ++ CatchClause.eventsList catches ++
      Block.eventsOption finallyBody
  | .throw value => value.events
  | .breakTo _ => []
  | .continueTo _ => []
  | .switch selector cases => selector.events ++ enclosed (SwitchCase.eventsList cases)
  | .sync lock body => lock.events ++ body.events
  | .labeled _ body => held body.events
  | .assertion cond message => cond.events ++ Expr.eventsOption message
  | .empty => []

def ForInit.events : ForInit → List Event
  | .decl decl => decl.events
  | .exprs values => Expr.eventsList values

def Resource.eventsList : List Resource → List Event
  | [] => []
  | .decl decl :: rest => decl.events ++ Resource.eventsList rest
  | .expr value :: rest => value.events ++ Resource.eventsList rest

/-- What `catch` clauses say, each in a scope with its parameter. -/
def CatchClause.eventsList : List CatchClause → List Event
  | [] => []
  | ⟨id, _, _, _, name, body⟩ :: rest =>
    enclosed (.bind .catchParam name id :: body.events) ++ CatchClause.eventsList rest

/-- What cases say, in the scope that the cases with a colon share. -/
def SwitchCase.eventsList : List SwitchCase → List Event
  | [] => []
  | ⟨_, labels, _, .colon, body⟩ :: rest =>
    outside (Expr.eventsList labels) ++ body.innerEvents ++ SwitchCase.eventsList rest
  | ⟨_, labels, _, _, body⟩ :: rest =>
    outside (Expr.eventsList labels ++ body.events) ++ SwitchCase.eventsList rest

def LocalVar.events : LocalVar → List Event
  | ⟨_, _, _, declarators⟩ => Declarator.eventsList declarators

/-- What declared variables say: each is visible from its own initial value on. -/
def Declarator.eventsList : List Declarator → List Event
  | [] => []
  | ⟨id, name, _, init⟩ :: rest =>
    [.open, .bind .variable name id] ++ Expr.eventsOption init ++ Declarator.eventsList rest

def Declarator.initEvents : List Declarator → List Event
  | [] => []
  | ⟨_, _, _, init⟩ :: rest => Expr.eventsOption init ++ Declarator.initEvents rest

/-- What the class body of an object creation or enum constant says, in a scope of its own. -/
def Member.eventsBody : Option (List Member) → List Event
  | none => []
  | some members => enclosed (fieldEvents members ++ Member.eventsList members)

/-- What members say, in order, once the fields are bound. -/
def Member.eventsList : List Member → List Event
  | [] => []
  | member :: rest => member.events ++ Member.eventsList rest

def Member.events : Member → List Event
  | .field ⟨_, _, _, _, declarators, _⟩ => Declarator.initEvents declarators
  | .method ⟨_, _, _, _, _, _, _, params, _, body⟩ =>
    enclosed ((params.map fun param => .bind .methodParam param.name param.id) ++
      Block.eventsOption body)
  | .type decl => decl.events
  | .initializer ⟨_, _, body⟩ => body.events

/-- What a type says, in a scope of its own. -/
def TypeDecl.events : TypeDecl → List Event
  | ⟨id, _, _, _, _, _, _, _, _, constants, members, _, _⟩ =>
    enclosed (constantEvents id constants ++ fieldEvents members ++ Member.eventsList members ++
      EnumConstant.eventsList constants)

def EnumConstant.eventsList : List EnumConstant → List Event
  | [] => []
  | ⟨_, _, _, args, body⟩ :: rest =>
    Expr.eventsItems args ++ Member.eventsBody body ++ EnumConstant.eventsList rest
end

end AdviceMigration.Source
