import AdviceMigration.Scope.Event
import AdviceMigration.Source.Path

/-!
# Folding assignments into returns

Once every `return` reads the returned variables by name, `x = value; return x;` can become `return value;`. Going backwards from a `return`, each assignment right in front of it is moved into the slot that reads the variable. It is left alone when that could be observed: when two slots read the variable, when the value reads a variable whose assignment may still be moved, or when the value would change places with a slot to its left and one of the two has an effect that the other may notice.
-/

namespace AdviceMigration.Advice

open AdviceMigration.Source AdviceMigration.Scope

/-! ### What can be observed -/

def Event.mentions (names : List String) : Event → Bool
  | .use _ name _ => names.contains name
  | _ => false

def mentionsAny (names : List String) (expr : Expr) : Bool :=
  expr.events.any (Event.mentions names)

/-- Whether there is an assignment, an increment, a call or an allocation anywhere in an expression. -/
def hasSideEffects (expr : Expr) : Bool := expr.events.contains .effect

/-- Whether an expression is built from literals, class literals and `this` only, so that no effect can change its value. -/
def isConstant : Expr → Bool
  | .literal _ => true
  | .classLiteral _ => true
  | .this => true
  | .paren inner => isConstant inner
  | .cast _ operand => isConstant operand
  | .unary op operand => !op.hasSideEffects && isConstant operand
  | .binary _ left right => isConstant left && isConstant right
  | .conditional cond yes no => isConstant cond && isConstant yes && isConstant no
  | _ => false

/-- Whether it may matter which of two expressions is evaluated first. -/
def conflicts (left right : Expr) : Bool :=
  (hasSideEffects left && !isConstant right) || (hasSideEffects right && !isConstant left)

/-! ### Slots -/

/-- The slots of a `return`: the items of the array it gives back, or what it gives back. -/
def slots (packed : Bool) (ret : Stmt) : List Expr :=
  match packed, ret.kind with
  | true, .ret (some (.newArray _ _ (some items))) => items
  | false, .ret (some value) => [value]
  | _, _ => []

/-- The `return` with another expression in a slot. -/
def withSlot (packed : Bool) (slot : Nat) (value : Expr) (ret : Stmt) : Stmt :=
  match packed, ret.kind with
  | true, .ret (some (.newArray element dims (some items))) =>
    { ret with kind := .ret (some (.newArray element dims (some (items.set slot value)))) }
  | false, .ret (some _) => { ret with kind := .ret (some value) }
  | _, _ => ret

def isName (name : String) (expr : Expr) : Bool := expr.name? == some name

/-- The slot that reads a variable, if exactly one does. -/
def onlySlot? (name : String) (exprs : List Expr) : Option Nat :=
  if exprs.countP (isName name) == 1 then exprs.findIdx? (isName name) else none

/-! ### Folding -/

/-- The variable and the value of a plain assignment to a bare name. -/
def assignment? (stmt : Stmt) : Option (String × Expr) :=
  match stmt.kind with
  | .expr (.assign (.name _ name) .assign value) => some (name, value)
  | _ => none

/-- An assignment that can be moved into a `return`: its variable, its value and the slot it goes to. -/
structure Fold where
  name : String
  value : Expr
  slot : Nat

/-- How a statement can be moved into the `return` right after it; `pending` are the variables whose assignments have not been moved yet. -/
def foldable? (packed : Bool) (pending : List String) (stmt ret : Stmt) : Option Fold :=
  match assignment? stmt with
  | none => none
  | some (name, value) =>
    if pending.contains name then
      let exprs := slots packed ret
      match onlySlot? name exprs with
      | none => none
      | some slot =>
        if mentionsAny (pending.filter (· != name)) value then none
        else if (exprs.take slot).any fun left => conflicts left value then none
        else some ⟨name, value, slot⟩
    else none

/-- The `return` that takes in an assignment, with its comments, its empty line and, if they fit, the lines in front of it. -/
def absorb (packed : Bool) (fold : Fold) (assignment ret : Stmt) : Stmt :=
  let ret := withSlot packed fold.slot fold.value ret
  let comments := assignment.layout.comments ++ assignment.trailing.toList ++ ret.layout.comments
  let blank := assignment.layout.blankLineBefore
  let leading :=
    if (Trivia.textFor? assignment.layout.leading comments blank).isSome then
      assignment.layout.leading
    else ret.layout.leading
  ret.withLeading comments blank leading

/-- Moves assignments into the `return` they precede, for as long as that is possible. The statements in front are given last first. Answers those that stay, the `return` and how many were moved. -/
def foldInto (packed : Bool) : (before : List Stmt) → (pending : List String) → Stmt →
    List Stmt × Stmt × Nat
  | [], _, ret => ([], ret, 0)
  | stmt :: before, pending, ret =>
    match foldable? packed pending stmt ret with
    | none => (stmt :: before, ret, 0)
    | some fold =>
      let (kept, ret, count) :=
        foldInto packed before (pending.filter (· != fold.name)) (absorb packed fold stmt ret)
      (kept, ret, count + 1)

def foldBlock (returned : List String) (block : Block) (index : Nat) : Block × Nat :=
  match block.stmts[index]? with
  | none => (block, 0)
  | some ret =>
    let (kept, ret, count) :=
      foldInto (1 < returned.length) (block.stmts.take index).reverse returned ret
    ({ block with stmts := kept.reverse ++ ret :: block.stmts.drop (index + 1) }, count)

/-- Moves assignments into the `return` at a path, if it stands directly in a block. -/
def foldAt (returned : List String) (body : Block) (path : StmtPath) : Block × Nat :=
  match path.blockIndex? with
  | none => (body, 0)
  | some (blockPath, index) =>
    match body.blockAt? blockPath with
    | none => (body, 0)
    | some block =>
      let (block, count) := foldBlock returned block index
      ((body.updateBlock? blockPath fun _ => some block).getD body, count)

def foldAll (returned : List String) : Block → List StmtPath → Block × Nat
  | body, [] => (body, 0)
  | body, path :: rest =>
    let (body, count) := foldAt returned body path
    let (body, more) := foldAll returned body rest
    (body, count + more)

/-- Moves assignments into the returns of a method that give back the named variables in this order, and counts them. The last return comes first, so that no path that is still waiting shifts. -/
def foldReturns (method : Method) (returned : List String) : Method × Nat :=
  match method.body with
  | none => (method, 0)
  | some body =>
    let (body, count) := foldAll returned body body.returnPaths.reverse
    ({ method with body := some body }, count)

end AdviceMigration.Advice
