import AdviceMigration.Source.Parse.TypeRef

/-!
# Reading expressions

Binary operators are read by binding strength, which `BinaryOp.precedence` also gives to the printer. An operator that contains a greater-than sign is put together from tokens that touch each other.
-/

namespace AdviceMigration.Source

open AdviceMigration.Text

namespace Grammar

/-! ### Lookahead -/

/-- Whether the token `n` places ahead is the given sign and touches the token before it. -/
def glued (cursor : Cursor) (n : Nat) (punct : Punct) : Bool :=
  let token := cursor.tokenAt (cursor.position + n)
  token.kind == .punct punct && token.joint

/-- The binary operator here and the number of tokens it is made of. -/
def binaryOp? (cursor : Cursor) : Option (BinaryOp × Nat) :=
  match cursor.current.kind with
  | .punct .pipePipe => some (.or, 1)
  | .punct .ampAmp => some (.and, 1)
  | .punct .pipe => some (.bitOr, 1)
  | .punct .caret => some (.bitXor, 1)
  | .punct .amp => some (.bitAnd, 1)
  | .punct .eqEq => some (.eq, 1)
  | .punct .bangEq => some (.ne, 1)
  | .punct .less => some (.lt, 1)
  | .punct .lessEq => some (.le, 1)
  | .punct .leftShift => some (.shl, 1)
  | .punct .plus => some (.add, 1)
  | .punct .minus => some (.sub, 1)
  | .punct .star => some (.mul, 1)
  | .punct .slash => some (.div, 1)
  | .punct .percent => some (.rem, 1)
  | .punct .greater =>
    if glued cursor 1 .greater then
      if glued cursor 2 .greater then
        if glued cursor 3 .eq then none else some (.ushr, 3)
      else if glued cursor 2 .eq then none
      else some (.shr, 2)
    else if glued cursor 1 .eq then some (.ge, 2)
    else some (.gt, 1)
  | _ => none

/-- The assignment operator here and the number of tokens it is made of. -/
def assignOp? (cursor : Cursor) : Option (AssignOp × Nat) :=
  match cursor.current.kind with
  | .punct .eq => some (.assign, 1)
  | .punct .plusEq => some (.add, 1)
  | .punct .minusEq => some (.sub, 1)
  | .punct .starEq => some (.mul, 1)
  | .punct .slashEq => some (.div, 1)
  | .punct .percentEq => some (.rem, 1)
  | .punct .ampEq => some (.bitAnd, 1)
  | .punct .pipeEq => some (.bitOr, 1)
  | .punct .caretEq => some (.bitXor, 1)
  | .punct .leftShiftEq => some (.shl, 1)
  | .punct .greater =>
    if glued cursor 1 .greater then
      if glued cursor 2 .greater && glued cursor 3 .eq then some (.ushr, 4)
      else if glued cursor 2 .eq then some (.shr, 3)
      else none
    else none
  | _ => none

/-- Whether an arrow follows the parenthesis that closes the first one of the given tokens, with `depth` parentheses open; nothing if one is closed that is not open. A semicolon or a brace ends the search. -/
def arrowAfterParens? (depth : Nat) : List TokenKind → Option Bool
  | [] => some false
  | .punct .lParen :: rest => arrowAfterParens? (depth + 1) rest
  | .punct .rParen :: rest =>
    match depth with
    | 0 => none
    | 1 => some (rest.head? == some (.punct .arrow))
    | depth + 1 => arrowAfterParens? depth rest
  | .eof :: _ => some false
  | .punct .semicolon :: _ => some false
  | .punct .lBrace :: _ => some false
  | _ :: rest => arrowAfterParens? depth rest

def atLambda : Parser Bool := do
  let cursor ← here
  if cursor.noLambda then return false
  else
    match cursor.current.kind with
    | .ident => return (← peek 1) == .punct .arrow
    | .punct .lParen =>
      let kinds := (cursor.tokens.extract cursor.position cursor.tokens.size).toList.map (·.kind)
      match arrowAfterParens? 0 kinds with
      | some isLambda => return isLambda
      | none => throw .outOfRange
    | _ => return false

/-- Whether a token can follow the closing parenthesis of a cast to a reference type. -/
def canStartOperand (kind : TokenKind) : Bool :=
  kind.isLiteral || kind.isPrimitive ||
    match kind with
    | .ident | .punct .lParen | .punct .bang | .punct .tilde | .keyword .thisKw
    | .keyword .superKw | .keyword .newKw | .keyword .voidKw => true
    | _ => false

/-- Whether a token is a sign that can also stand between two operands. -/
def isSign (kind : TokenKind) : Bool :=
  match kind with
  | .punct .plus | .punct .minus | .punct .plusPlus | .punct .minusMinus => true
  | _ => false

/-- Passes a type in parentheses if it starts a cast; else goes back. After a primitive type an operand may start with a sign. -/
def castType? (g : Grammar) : Parser (Option TypeRef) := do
  let start ← position
  bump
  let primitive := (← kind).isPrimitive
  let type ← attempt g.typeRef
  match type with
  | some type =>
    if ← eatPunct .rParen then
      let next ← kind
      if canStartOperand next || (primitive && !type.isArray && isSign next) then
        return some type
      else
        rewind start
        return none
    else
      rewind start
      return none
  | none =>
    rewind start
    return none

/-- Whether a declaration of local variables starts here: a type, a name, and what can follow a declared name. -/
def atLocalVar (g : Grammar) : Parser Bool := do
  let start ← position
  let type ← attempt g.typeRef
  let isDecl ← match type with
    | some _ => do
      let named ← atIdent
      let next ← peek 1
      pure (named && (next == .punct .eq || next == .punct .semicolon || next == .punct .comma ||
        next == .punct .lBracket || next == .punct .colon))
    | none => pure false
  rewind start
  return isDecl

/-! ### Primary expressions -/

/-- The segments of a dotted name, last first. -/
def nameSegments? : Expr → Option (List TypeSegment)
  | .name _ name => some [.plain name]
  | .field receiver name => (nameSegments? receiver).map (.plain name :: ·)
  | _ => none

def asType? (expr : Expr) : Option TypeRef :=
  (nameSegments? expr).map fun segments => .named segments.reverse

def exprList (g : Grammar) : Parser (List Expr) :=
  separatedBy .comma g.expr

def args (g : Grammar) : Parser (List Expr) := do
  expectPunct .lParen "expected `(`"
  let args ← if ← atPunct .rParen then pure [] else g.exprList
  expectPunct .rParen "expected `)` to close the argument list"
  return args

/-- An expression in parentheses, as conditions are. -/
def parenExpr (g : Grammar) : Parser Expr := do
  expectPunct .lParen "expected `(`"
  let expr ← g.expr
  expectPunct .rParen "expected `)`"
  return expr

def arrayItems (g : Grammar) : Parser (List Expr) := do
  expectPunct .lBrace "expected `\x7b`"
  let items ← listUntil .rBrace g.varInit
  expectPunct .rBrace "expected `\x7d` to close the array initializer"
  return items

/-- The name after the two colons of a method reference. -/
def methodRefName : Parser String := do
  if ← eatKeyword .newKw then return "new" else expectIdent "expected method name after `::`"

/-- What can follow a type that stands where an expression is expected. -/
def afterType (type : TypeRef) : Parser Expr := do
  if ← eatPunct .doubleColon then
    let name ← methodRefName
    return .methodRef (.typeName type) name
  else
    expectPunct .dot "expected `.class`"
    expect (.keyword .classKw) "expected `.class`"
    return .classLiteral type

def literalOf (kind : LiteralKind) : Parser Expr := do
  let text ← bumpText
  return .literal ⟨kind, unifyNewlines text⟩

def classBody (g : Grammar) : Parser (List Member) := do
  expectPunct .lBrace "expected `\x7b`"
  let (members, _, _) ← g.members
  return members

def arrayDims (g : Grammar) : Parser (List (Option Expr)) :=
  manyWhile (eatPunct .lBracket) do
    if ← eatPunct .rBracket then return none
    else
      let size ← g.expr
      expectPunct .rBracket "expected `]`"
      return some size

def creation (g : Grammar) (outer : Option Expr) : Parser Expr := do
  expect (.keyword .newKw) "expected `new`"
  if ← atPunct .less then complain "explicit constructor type arguments are not supported"
  else
    let type ← match (← kind).primitive? with
      | some primitive => do
        bump
        pure (.primitive primitive)
      | none => g.classType
    if ← atPunct .lBracket then
      let dims ← g.arrayDims
      let init ← if ← atPunct .lBrace then pure (some (← g.arrayItems)) else pure none
      return .newArray type dims init
    else
      let args ← g.args
      let body ← if ← atPunct .lBrace then pure (some (← g.classBody)) else pure none
      return .new outer type args body

def lambdaParam (g : Grammar) : Parser LambdaParam := do
  let (_, modifiers) ← g.modifiers
  let next ← peek 1
  if (← atIdent) && (next == .punct .comma || next == .punct .rParen) then
    let name ← bumpText
    return ⟨← freshId, modifiers, none, name⟩
  else
    let type ← g.typeRef
    let type := if ← eatPunct .ellipsis then .array type else type
    let name ← expectIdent "expected lambda parameter name"
    return ⟨← freshId, modifiers, some type, name⟩

/-- The parameters of a lambda expression, and whether parentheses hold them. -/
def lambdaParams (g : Grammar) : Parser (List LambdaParam × Bool) := do
  if ← atIdent then
    let name ← bumpText
    return ([⟨← freshId, [], none, name⟩], false)
  else
    expectPunct .lParen "expected `(`"
    let params ← listUntil .rParen g.lambdaParam
    expectPunct .rParen "expected `)` after lambda parameters"
    return (params, true)

def block (g : Grammar) : Parser Block := do
  expectPunct .lBrace "expected `\x7b`"
  let stmts ← loop (fun stmts => do
    if ← atPunct .rBrace then return .done stmts.reverse
    else if ← atKind .eof then complain "expected `\x7d` to close the block"
    else
      let stmt ← g.stmt
      return .continue (stmt :: stmts)) []
  let (comments, closing) ← takeClosing
  bump
  return ⟨stmts, comments, closing⟩

def lambda (g : Grammar) : Parser Expr := do
  let (params, parenthesized) ← g.lambdaParams
  expectPunct .arrow "expected `->`"
  let body ← withNoLambda false do
    if ← atPunct .lBrace then return LambdaBody.block (← g.block)
    else return LambdaBody.expr (← g.expr)
  return .lambda params parenthesized body

/-- A call of another constructor, or the object itself. -/
def selfReference (g : Grammar) (word : String) (self : Expr) : Parser Expr := do
  bump
  if ← atPunct .lParen then return .call none [] word (← g.args) else return self

/-- An expression without operators. -/
def primary (g : Grammar) : Parser Expr := do
  if ← atLambda then g.lambda
  else
    match ← kind with
    | .literal literal => literalOf literal
    | .punct .lParen => do
      bump
      let inner ← g.expr
      expectPunct .rParen "expected `)`"
      return .paren inner
    | .keyword .thisKw => g.selfReference "this" .this
    | .keyword .superKw => g.selfReference "super" .super
    | .keyword .newKw => g.creation none
    | .ident => do
      let name ← bumpText
      if ← atPunct .lParen then return .call none [] name (← g.args)
      else return .name (← freshId) name
    | .keyword .voidKw => do
      bump
      afterType .void
    | .keyword .switchKw => complain "switch expressions are not supported"
    | other => do
      if other.isPrimitive then
        let type ← g.typeRef
        afterType type
      else complain "expected expression"

/-! ### Operators -/

/-- The type arguments of a call; wildcards are dropped. -/
def callTypeArgs (args : List TypeArg) : List TypeRef :=
  args.filterMap fun arg =>
    match arg with
    | .type type => some type
    | _ => none

/-- What follows the dot after a receiver. -/
def selection (g : Grammar) (receiver : Expr) : Parser Expr := do
  match ← kind with
  | .ident => do
    let name ← bumpText
    if ← atPunct .lParen then return .call (some receiver) [] name (← g.args)
    else return .field receiver name
  | .punct .less => do
    let types ← g.typeArgs
    let name ← expectIdent "expected method name"
    let args ← g.args
    return .call (some receiver) (callTypeArgs types) name args
  | .keyword .thisKw | .keyword .superKw => do
    let word ← bumpText
    return .field receiver word
  | .keyword .classKw => do
    match asType? receiver with
    | some type =>
      bump
      return .classLiteral type
    | none => complain "expected a type before `.class`"
  | .keyword .newKw => g.creation (some receiver)
  | _ => complain "expected identifier after `.`"

/-- One step of what can follow a primary expression. -/
def postfixStep (g : Grammar) (expr : Expr) : Parser (LoopStep Expr Expr) := do
  match ← kind with
  | .punct .dot => do
    bump
    let selected ← g.selection expr
    return .continue selected
  | .punct .lBracket => do
    if (← peek 1) == .punct .rBracket then
      match asType? expr with
      | some type =>
        let type ← brackets type
        let result ← afterType type
        return .done result
      | none => complain "expected array index"
    else
      bump
      let index ← g.expr
      expectPunct .rBracket "expected `]`"
      return .continue (.index expr index)
  | .punct .plusPlus => do
    bump
    return .continue (.unary .postInc expr)
  | .punct .minusMinus => do
    bump
    return .continue (.unary .postDec expr)
  | .punct .doubleColon => do
    bump
    let name ← methodRefName
    return .continue (.methodRef expr name)
  | _ => return .done expr

/-- The operator that stands in front of its operand. -/
def signOf? : TokenKind → Option UnaryOp
  | .punct .plus => some .plus
  | .punct .minus => some .minus
  | .punct .bang => some .not
  | .punct .tilde => some .bitNot
  | .punct .plusPlus => some .preInc
  | .punct .minusMinus => some .preDec
  | _ => none

def castHere? (g : Grammar) : Parser (Option TypeRef) := do
  if ← atPunct .lParen then
    if ← atLambda then return none else g.castType?
  else return none

/-- An operand with the operators that belong to it alone. -/
def operand (g : Grammar) : Parser Expr := do
  match signOf? (← kind) with
  | some op =>
    bump
    return .unary op (← g.unary)
  | none =>
    match ← g.castHere? with
    | some type => return .cast type (← g.unary)
    | none =>
      let start ← g.primary
      loop g.postfixStep start

/-- One operator and its right operand, if the operator binds tighter than `strength`. -/
def binaryStep (g : Grammar) (strength : Nat) (left : Expr) : Parser (LoopStep Expr Expr) := do
  if ← atKeyword .instanceofKw then
    if instanceOfPrecedence ≤ strength then return .done left
    else
      bump
      let isFinal ← eatKeyword .finalKw
      let type ← g.typeRef
      if ← atIdent then
        let id ← freshId
        let name ← bumpText
        return .continue (.instanceOf left type (some ⟨id, isFinal, name⟩))
      else return .continue (.instanceOf left type none)
  else
    match binaryOp? (← here) with
    | none => return .done left
    | some (op, length) =>
      if op.precedence ≤ strength then return .done left
      else
        bumpTimes length
        let right ← g.binary op.precedence
        return .continue (.binary op left right)

/-- Operands with operators that bind tighter than `strength`. -/
def operands (g : Grammar) (strength : Nat) : Parser Expr := do
  let first ← g.operand
  loop (g.binaryStep strength) first

/-- A conditional expression, or one that binds tighter. -/
def choice (g : Grammar) : Parser Expr := do
  let cond ← g.operands 0
  if ← eatPunct .question then
    let yes ← g.ternary
    expectPunct .colon "expected `:` in conditional expression"
    let no ← g.ternary
    return .conditional cond yes no
  else return cond

def expression (g : Grammar) : Parser Expr := do
  let left ← g.choice
  match assignOp? (← here) with
  | some (op, length) =>
    bumpTimes length
    let value ← g.expr
    return .assign left op value
  | none => return left

/-- The initial value of a variable: an expression or an array initializer. -/
def initialValue (g : Grammar) : Parser Expr := do
  if ← atPunct .lBrace then return .arrayInit (← g.arrayItems) else g.expression

def annotValue (g : Grammar) : Parser ElementValue := do
  if ← atPunct .at then return .annot (← g.annot)
  else if ← atPunct .lBrace then
    bump
    let values ← listUntil .rBrace g.elementValue
    expectPunct .rBrace "expected `\x7d` to close the element array"
    return .array values
  else return .expr (← g.choice)

end Grammar

end AdviceMigration.Source
