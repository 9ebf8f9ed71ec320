import AdviceMigration.Source.Parse.Decl

/-!
# Reading statements
-/

namespace AdviceMigration.Source

namespace Grammar

/-- The label after `break` or `continue`, and the semicolon. -/
def jumpLabel : Parser (Option String) := do
  let label ← if ← atIdent then pure (some (← bumpText)) else pure none
  expectPunct .semicolon "expected `;`"
  return label

/-- An `if` statement after its first word. -/
def ifStmt (g : Grammar) : Parser StmtKind := do
  let cond ← g.parenExpr
  let yes ← g.stmt
  let no ← if ← eatKeyword .elseKw then pure (some (← g.stmt)) else pure none
  return .ifElse cond yes no

def doStmt (g : Grammar) : Parser StmtKind := do
  let body ← g.stmt
  expect (.keyword .whileKw) "expected `while` after `do` body"
  let cond ← g.parenExpr
  expectPunct .semicolon "expected `;` after `do`/`while`"
  return .doWhile body cond

/-- Whether a declaration of variables starts here, in the header of a `for` or `try` statement. -/
def atHeaderVar (g : Grammar) : Parser Bool := do
  if ← atKeyword .finalKw then return true
  else if ← atPunct .at then return true
  else g.atLocalVar

/-- A `for` statement from the semicolon after its start. -/
def forRest (g : Grammar) (init : ForInit) : Parser StmtKind := do
  expectPunct .semicolon "expected `;` in for header"
  let cond ← if ← atPunct .semicolon then pure none else pure (some (← g.expression))
  expectPunct .semicolon "expected `;` in for header"
  let update ← if ← atPunct .rParen then pure [] else g.exprList
  expectPunct .rParen "expected `)` after for header"
  let body ← g.stmt
  return .forLoop init cond update body

/-- A loop over a collection from the colon on. -/
def forEachRest (g : Grammar) (annots : List Annot) (modifiers : List Modifier) (type : TypeRef)
    (name : String) : Parser StmtKind := do
  let iterable ← g.expression
  expectPunct .rParen "expected `)` after for-each header"
  let body ← g.stmt
  return .forEach ⟨← freshId, annots, modifiers, type, name⟩ iterable body

def forStmt (g : Grammar) : Parser StmtKind := do
  expectPunct .lParen "expected `(` after `for`"
  if ← atPunct .semicolon then g.forRest (.exprs [])
  else if ← g.atHeaderVar then
    let (annots, modifiers) ← g.modifiers
    let type ← g.typeRef
    let name ← expectIdent "expected variable name"
    if ← eatPunct .colon then g.forEachRest annots modifiers type name
    else
      let declarators ← g.declaratorsAfter name "expected variable name"
      g.forRest (.decl ⟨annots, modifiers, type, declarators⟩)
  else
    let values ← g.exprList
    g.forRest (.exprs values)

def resource (g : Grammar) : Parser Resource := do
  if ← g.atHeaderVar then
    let (annots, modifiers) ← g.modifiers
    return .decl (← g.localVar annots modifiers)
  else return .expr (← g.expression)

/-- The resources of a `try` statement with semicolons between them; a last one may stand alone. -/
def resources (g : Grammar) : Parser (List Resource) :=
  loop (fun resources => do
    if ← atPunct .rParen then return .done resources.reverse
    else
      let resource ← g.resource
      if ← eatPunct .semicolon then return .continue (resource :: resources)
      else return .done (resource :: resources).reverse) []

def catchClause (g : Grammar) : Parser CatchClause := do
  expectPunct .lParen "expected `(` after `catch`"
  let (annots, modifiers) ← g.modifiers
  let types ← separatedBy .pipe g.typeRef
  let name ← expectIdent "expected exception parameter name"
  expectPunct .rParen "expected `)` after catch parameter"
  let body ← g.block
  return ⟨← freshId, annots, modifiers, types, name, body⟩

def tryStmt (g : Grammar) : Parser StmtKind := do
  let resources ← if ← eatPunct .lParen then do
      let resources ← g.resources
      expectPunct .rParen "expected `)` after try resources"
      pure resources
    else pure []
  let body ← g.block
  let catches ← manyWhile (eatKeyword .catchKw) g.catchClause
  let finallyBody ← if ← eatKeyword .finallyKw then pure (some (← g.block)) else pure none
  if resources.isEmpty && catches.isEmpty && finallyBody.isNone then
    complain "expected `catch` or `finally` after `try` block"
  else return .tryBlock resources body catches finallyBody

/-- The labels of a case, up to the colon or arrow. An arrow there starts no lambda expression. -/
def caseLabels (g : Grammar) : Parser (List Expr) :=
  withNoLambda true (separatedBy .comma g.choice)

def atCaseEnd : Parser Bool := do
  match ← kind with
  | .keyword .caseKw | .keyword .defaultKw | .punct .rBrace | .eof => return true
  | _ => return false

def caseBody (g : Grammar) : Parser (CaseForm × Block) := do
  if ← eatPunct .arrow then
    if ← atPunct .lBrace then return (.arrowBlock, ← g.block)
    else return (.arrowSingle, ⟨[← g.stmt], [], none⟩)
  else
    expectPunct .colon "expected `:` or `->` after case label"
    let stmts ← manyWhile (do return !(← atCaseEnd)) g.stmt
    return (.colon, ⟨stmts, [], none⟩)

def switchCase (g : Grammar) : Parser SwitchCase := do
  let (comments, _) ← takeComments
  if ← eatKeyword .defaultKw then
    let (form, body) ← g.caseBody
    return ⟨comments, [], true, form, body⟩
  else
    expect (.keyword .caseKw) "expected `case` or `default`"
    let labels ← g.caseLabels
    let (form, body) ← g.caseBody
    return ⟨comments, labels, false, form, body⟩

def commentLastCase (comments : List Comment) : List SwitchCase → List SwitchCase
  | [] => []
  | [last] => [{ last with body := { last.body with endComments := comments } }]
  | case :: rest => case :: commentLastCase comments rest

/-- A `switch` statement after its first word. The comments in front of the closing brace go to the last case. -/
def switchStmt (g : Grammar) : Parser StmtKind := do
  let selector ← g.parenExpr
  expectPunct .lBrace "expected `\x7b` after switch selector"
  let cases ← loop (fun cases => do
    if ← atPunct .rBrace then return .done cases.reverse
    else if ← atKind .eof then complain "expected `\x7d` to close the switch"
    else
      let case ← g.switchCase
      return .continue (case :: cases)) []
  let (comments, _) ← takeComments
  bump
  return .switch selector (commentLastCase comments cases)

/-- A local declaration that starts with modifiers or annotations. -/
def modifiedLocal (g : Grammar) : Parser StmtKind := do
  let start ← position
  let (annots, modifiers) ← g.modifiers
  match ← kind with
  | .keyword .classKw | .keyword .interfaceKw | .keyword .enumKw =>
    return .localClass (← g.typeDecl .unwritten annots modifiers start)
  | _ =>
    let decl ← g.localVar annots modifiers
    expectPunct .semicolon "expected `;` after local variable"
    return .localVar decl

/-- A declaration of local variables, or an expression. -/
def simpleStmt (g : Grammar) : Parser StmtKind := do
  if ← g.atLocalVar then
    let decl ← g.localVar [] []
    expectPunct .semicolon "expected `;` after local variable"
    return .localVar decl
  else
    let value ← g.expression
    expectPunct .semicolon "expected `;` after expression"
    return .expr value

def returnStmt (g : Grammar) : Parser StmtKind := do
  if ← eatPunct .semicolon then return .ret none
  else
    let value ← g.expression
    expectPunct .semicolon "expected `;` after return value"
    return .ret (some value)

def assertStmt (g : Grammar) : Parser StmtKind := do
  let cond ← g.expression
  let message ← if ← eatPunct .colon then pure (some (← g.expression)) else pure none
  expectPunct .semicolon "expected `;` after assert"
  return .assertion cond message

/-- A statement without its layout. -/
def stmtKind (g : Grammar) : Parser StmtKind := do
  match ← kind with
  | .punct .lBrace => return .block (← g.block)
  | .punct .semicolon => do
    bump
    return .empty
  | .keyword .ifKw => do
    bump
    g.ifStmt
  | .keyword .whileKw => do
    bump
    let cond ← g.parenExpr
    return .whileLoop cond (← g.stmt)
  | .keyword .doKw => do
    bump
    g.doStmt
  | .keyword .forKw => do
    bump
    g.forStmt
  | .keyword .tryKw => do
    bump
    g.tryStmt
  | .keyword .switchKw => do
    bump
    g.switchStmt
  | .keyword .returnKw => do
    bump
    g.returnStmt
  | .keyword .throwKw => do
    bump
    let value ← g.expression
    expectPunct .semicolon "expected `;` after throw"
    return .throw value
  | .keyword .breakKw => do
    bump
    return .breakTo (← jumpLabel)
  | .keyword .continueKw => do
    bump
    return .continueTo (← jumpLabel)
  | .keyword .synchronizedKw => do
    if (← peek 1) == .punct .lParen then
      bump
      let lock ← g.parenExpr
      return .sync lock (← g.block)
    else g.simpleStmt
  | .keyword .assertKw => do
    bump
    g.assertStmt
  | .keyword .classKw | .keyword .interfaceKw | .keyword .enumKw | .keyword .abstractKw
  | .keyword .finalKw | .punct .at => g.modifiedLocal
  | .ident => do
    if (← peek 1) == .punct .colon then
      let label ← bumpText
      bump
      return .labeled label (← g.stmt)
    else g.simpleStmt
  | _ => g.simpleStmt

def statement (g : Grammar) : Parser Stmt := do
  let layout ← takeLayout
  let start ← position
  let kind ← g.stmtKind
  let trailing ← takeTrailing
  let stmt : Stmt := ⟨layout, trailing, kind⟩
  let verbatim ← captureFrom start (canonicalText stmt.ownDoc)
  return { stmt with layout := layout.withText verbatim }

end Grammar

end AdviceMigration.Source
