import AdviceMigration.Source.Node

/-!
# Executing statements

What statements do, on a machine that leaves open everything else: values and states are arbitrary, and so is what becomes of an expression other than a name, a literal or an array of items. Conditions, calls and assignments can therefore have any outcome. A statement ends in one of five ways, which the statements around it catch or pass on. Only the number of rounds of a loop is bounded, by `rounds`; a statement that does not end within this bound, or whose expressions do not, has no outcome.

Variables are looked up by name. That is enough, since a local variable never hides a variable or a parameter of the method around it.
-/

namespace AdviceMigration.Execution

open AdviceMigration.Source

/-- How a statement ends. -/
inductive Completion (Value : Type) where
  | normal
  | broke (label : Option String)
  | continued (label : Option String)
  | returned (value : Option Value)
  | threw (value : Value)

/-- What statements leave open. -/
structure Machine where
  State : Type
  Value : Type
  /-- The value of a variable. -/
  lookup : State → String → Value
  /-- Gives a value to a variable that is declared. -/
  assign : State → String → Value → State
  literal : Literal → Value
  /-- An array of values. Nothing else refers to it when it is made. -/
  array : List Value → Value
  /-- What becomes of any other expression: a value or an exception, if it ends at all. -/
  evalOther : Expr → State → Option (Except Value Value × State)
  isTrue : Value → Bool
  /-- Whether the labels of a case stand for a value. -/
  selects : Value → List Expr → State → Bool
  /-- Whether a value has one of the types. -/
  isInstance : Value → List TypeRef → State → Bool
  /-- The next item of a collection, or nothing at its end. -/
  next : Value → State → Option (Except Value (Option Value) × State)
  /-- Closes a resource, perhaps with an exception. -/
  close : Value → State → Option (Option Value × State)
  checksAssertions : State → Bool
  assertionError : Option Value → Value
  isTrue_true : isTrue (literal ⟨.bool, "true"⟩) = true
  /-- Closing a resource is a call, and a call does not change the variables of its caller. -/
  lookup_close : ∀ resource state failure state' name,
    close resource state = some (failure, state') → lookup state' name = lookup state name

namespace Machine

variable (machine : Machine)

/-- What evaluating an expression gives. -/
abbrev Evaluated : Type := Option (Except machine.Value machine.Value × machine.State)

/-- What executing a statement gives. -/
abbrev Outcome : Type := Option (Completion machine.Value × machine.State)

mutual
/-- Evaluates an expression. -/
def eval : Expr → machine.State → machine.Evaluated
  | .name _ name, state => some (.ok (machine.lookup state name), state)
  | .literal literal, state => some (.ok (machine.literal literal), state)
  | .paren inner, state => eval inner state
  | .newArray _ _ (some items), state =>
    match evalItems items state with
    | some (.ok values, state) => some (.ok (machine.array values), state)
    | some (.error thrown, state) => some (.error thrown, state)
    | none => none
  | expr, state => machine.evalOther expr state

/-- Evaluates the items of an array from left to right. -/
def evalItems : List Expr → machine.State →
    Option (Except machine.Value (List machine.Value) × machine.State)
  | [], state => some (.ok [], state)
  | item :: rest, state =>
    match eval item state with
    | some (.ok value, state) =>
      match evalItems rest state with
      | some (.ok values, state) => some (.ok (value :: values), state)
      | other => other
    | some (.error thrown, state) => some (.error thrown, state)
    | none => none
end

variable {machine}

/-- Goes on after a normal end. -/
def andThen (outcome : machine.Outcome) (next : machine.State → machine.Outcome) :
    machine.Outcome :=
  match outcome with
  | some (.normal, state) => next state
  | other => other

/-- Goes on with a value; an exception ends the statement. -/
def withValue (evaluated : machine.Evaluated)
    (next : machine.Value → machine.State → machine.Outcome) : machine.Outcome :=
  match evaluated with
  | some (.ok value, state) => next value state
  | some (.error thrown, state) => some (.threw thrown, state)
  | none => none

/-- What becomes of a round of a loop with the given labels: `continue` ends it like its end. -/
def resume (labels : List String) (outcome : machine.Outcome) : machine.Outcome :=
  match outcome with
  | some (.continued none, state) => some (.normal, state)
  | some (.continued (some label), state) =>
    if labels.contains label then some (.normal, state) else some (.continued (some label), state)
  | other => other

/-- What becomes of a loop or a switch: a plain `break` ends it. -/
def leave (outcome : machine.Outcome) : machine.Outcome :=
  match outcome with
  | some (.broke none, state) => some (.normal, state)
  | other => other

/-- What becomes of a statement with a label: a `break` to it ends it. -/
def leaveLabel (label : String) (outcome : machine.Outcome) : machine.Outcome :=
  match outcome with
  | some (.broke (some target), state) =>
    if target == label then some (.normal, state) else some (.broke (some target), state)
  | other => other

/-- Repeats a round for as long as it ends normally. -/
def repeatRound (round : machine.State → machine.Outcome) : Nat → machine.State → machine.Outcome
  | 0, _ => none
  | rounds + 1, state => andThen (round state) (repeatRound round rounds)

/-- Handles an exception. -/
def handling (outcome : machine.Outcome)
    (handler : machine.Value → machine.State → machine.Outcome) : machine.Outcome :=
  match outcome with
  | some (.threw thrown, state) => handler thrown state
  | other => other

/-- Executes a `finally` block after what it guards, which decides how the statement ends unless the block does. -/
def finish (outcome : machine.Outcome) (finallyBlock : machine.State → machine.Outcome) :
    machine.Outcome :=
  match outcome with
  | some (completion, state) =>
    match finallyBlock state with
    | some (.normal, state) => some (completion, state)
    | other => other
  | none => none

/-- Closes a resource after the statements that use it. An exception of theirs has precedence. -/
def closing (resource : machine.Value) (outcome : machine.Outcome) : machine.Outcome :=
  match outcome with
  | some (completion, state) =>
    match machine.close resource state with
    | some (none, state) => some (completion, state)
    | some (some thrown, state) =>
      match completion with
      | .threw first => some (.threw first, state)
      | _ => some (.threw thrown, state)
    | none => none
  | none => none

/-- Goes on if a condition holds, else leaves the loop. -/
def whileTrue (cond : Expr) (next : machine.State → machine.Outcome) (state : machine.State) :
    machine.Outcome :=
  withValue (machine.eval cond state) fun value state =>
    if machine.isTrue value then next state else some (.broke none, state)

/-- Evaluates expressions for their effects. -/
def evalAll : List Expr → machine.State → machine.Outcome
  | [], state => some (.normal, state)
  | expr :: rest, state => withValue (machine.eval expr state) fun _ state => evalAll rest state

/-- Declares variables; one without an initial value has none yet. -/
def declareAll : List Declarator → machine.State → machine.Outcome
  | [], state => some (.normal, state)
  | ⟨_, _, _, none⟩ :: rest, state => declareAll rest state
  | ⟨_, name, _, some init⟩ :: rest, state =>
    withValue (machine.eval init state) fun value state =>
      declareAll rest (machine.assign state name value)

/-- Starts a `for` loop. -/
def start : ForInit → machine.State → machine.Outcome
  | .decl decl, state => declareAll decl.declarators state
  | .exprs values, state => evalAll values state

/-- Executes statements with variables that are resources. -/
def usingVars (next : machine.State → machine.Outcome) :
    List Declarator → machine.State → machine.Outcome
  | [], state => next state
  | ⟨_, _, _, none⟩ :: rest, state => usingVars next rest state
  | ⟨_, name, _, some init⟩ :: rest, state =>
    withValue (machine.eval init state) fun value state =>
      closing value (usingVars next rest (machine.assign state name value))

/-- Executes statements with resources, which are closed afterwards, the last one first. -/
def usingAll (next : machine.State → machine.Outcome) :
    List Resource → machine.State → machine.Outcome
  | [], state => next state
  | .decl decl :: rest, state => usingVars (usingAll next rest) decl.declarators state
  | .expr value :: rest, state =>
    withValue (machine.eval value state) fun value state => closing value (usingAll next rest state)

/-- The next round of a loop over a collection. -/
def nextItem (collection : machine.Value) (name : String)
    (round : machine.State → machine.Outcome) (state : machine.State) : machine.Outcome :=
  match machine.next collection state with
  | some (.ok (some item), state) => round (machine.assign state name item)
  | some (.ok none, state) => some (.broke none, state)
  | some (.error thrown, state) => some (.threw thrown, state)
  | none => none

/-- The case a switch enters: the first one whose labels stand for the value, or else the default. -/
def entry? (value : machine.Value) (state : machine.State) (cases : List (List Expr × Bool)) :
    Option Nat :=
  match cases.findIdx? fun case => machine.selects value case.1 state with
  | some index => some index
  | none => cases.findIdx? (·.2)

/-- Checks an assertion. -/
def check (cond : Expr) (message : Option Expr) (state : machine.State) : machine.Outcome :=
  if machine.checksAssertions state then
    withValue (machine.eval cond state) fun value state =>
      if machine.isTrue value then some (.normal, state)
      else
        match message with
        | none => some (.threw (machine.assertionError none), state)
        | some message =>
          withValue (machine.eval message state) fun value state =>
            some (.threw (machine.assertionError (some value)), state)
  else some (.normal, state)

end Machine

end AdviceMigration.Execution

namespace AdviceMigration.Source

open AdviceMigration.Execution AdviceMigration.Execution.Machine

mutual
/-- Executes a statement. -/
def Stmt.run (machine : Machine) (rounds : Nat) : Stmt → List String → machine.State →
    machine.Outcome
  | ⟨_, _, kind⟩, labels, state => kind.run machine rounds labels state

/-- Executes a statement of the given kind with the labels in front of it. -/
def StmtKind.run (machine : Machine) (rounds : Nat) : StmtKind → (labels : List String) →
    machine.State → machine.Outcome
  | .block body, _, state => body.run machine rounds state
  | .localVar decl, _, state => declareAll decl.declarators state
  | .localClass _, _, state => some (.normal, state)
  | .expr value, _, state => withValue (machine.eval value state)
      fun _ state => some (.normal, state)
  | .ret none, _, state => some (.returned none, state)
  | .ret (some value), _, state =>
    withValue (machine.eval value state) fun value state => some (.returned (some value), state)
  | .ifElse cond yes none, _, state =>
    withValue (machine.eval cond state) fun value state =>
      if machine.isTrue value then yes.run machine rounds [] state else some (.normal, state)
  | .ifElse cond yes (some no), _, state =>
    withValue (machine.eval cond state) fun value state =>
      if machine.isTrue value then yes.run machine rounds [] state
      else no.run machine rounds [] state
  | .whileLoop cond body, labels, state =>
    leave (repeatRound
      (whileTrue cond fun state => resume labels (body.run machine rounds [] state)) rounds state)
  | .doWhile body cond, labels, state =>
    leave (repeatRound
      (fun state => andThen (resume labels (body.run machine rounds [] state))
        (whileTrue cond fun state => some (.normal, state))) rounds state)
  | .forLoop init none update body, labels, state =>
    andThen (start init state) fun state =>
      leave (repeatRound
        (fun state => andThen (resume labels (body.run machine rounds [] state)) (evalAll update))
        rounds state)
  | .forLoop init (some cond) update body, labels, state =>
    andThen (start init state) fun state =>
      leave (repeatRound
        (whileTrue cond fun state =>
          andThen (resume labels (body.run machine rounds [] state)) (evalAll update))
        rounds state)
  | .forEach ⟨_, _, _, _, name⟩ iterable body, labels, state =>
    withValue (machine.eval iterable state) fun collection state =>
      leave (repeatRound
        (nextItem collection name fun state => resume labels (body.run machine rounds [] state))
        rounds state)
  | .tryBlock resources body catches none, _, state =>
    handling (usingAll (body.run machine rounds) resources state)
      (CatchClause.handle machine rounds catches)
  | .tryBlock resources body catches (some finallyBody), _, state =>
    finish (handling (usingAll (body.run machine rounds) resources state)
      (CatchClause.handle machine rounds catches)) (finallyBody.run machine rounds)
  | .throw value, _, state =>
    withValue (machine.eval value state) fun value state => some (.threw value, state)
  | .breakTo label, _, state => some (.broke label, state)
  | .continueTo label, _, state => some (.continued label, state)
  | .switch selector cases, _, state =>
    withValue (machine.eval selector state) fun value state =>
      match entry? value state (cases.map fun case => (case.labels, case.isDefault)) with
      | some index => leave (SwitchCase.runFrom machine rounds cases index state)
      | none => some (.normal, state)
  | .sync lock body, _, state =>
    withValue (machine.eval lock state) fun _ state => body.run machine rounds state
  | .labeled label body, labels, state =>
    leaveLabel label (body.run machine rounds (label :: labels) state)
  | .assertion cond message, _, state => check cond message state
  | .empty, _, state => some (.normal, state)

/-- Executes the statements of a block. -/
def Block.run (machine : Machine) (rounds : Nat) : Block → machine.State → machine.Outcome
  | ⟨stmts, _, _⟩, state => Stmt.runAll machine rounds stmts state

/-- Executes statements in order. -/
def Stmt.runAll (machine : Machine) (rounds : Nat) : List Stmt → machine.State → machine.Outcome
  | [], state => some (.normal, state)
  | stmt :: rest, state =>
    andThen (stmt.run machine rounds [] state) (Stmt.runAll machine rounds rest)

/-- Executes the first `catch` block that handles an exception. -/
def CatchClause.handle (machine : Machine) (rounds : Nat) : List CatchClause → machine.Value →
    machine.State → machine.Outcome
  | [], thrown, state => some (.threw thrown, state)
  | ⟨_, _, _, types, name, body⟩ :: rest, thrown, state =>
    if machine.isInstance thrown types state then
      body.run machine rounds (machine.assign state name thrown)
    else CatchClause.handle machine rounds rest thrown state

/-- Executes the cases of a switch from the given one on. Only a case with a colon goes on to the next. -/
def SwitchCase.runFrom (machine : Machine) (rounds : Nat) : List SwitchCase → Nat →
    machine.State → machine.Outcome
  | [], _, state => some (.normal, state)
  | _ :: rest, index + 1, state => SwitchCase.runFrom machine rounds rest index state
  | ⟨_, _, _, form, body⟩ :: rest, 0, state =>
    andThen (body.run machine rounds state) fun state =>
      if form == .colon then SwitchCase.runFrom machine rounds rest 0 state
      else some (.normal, state)
end

end AdviceMigration.Source
