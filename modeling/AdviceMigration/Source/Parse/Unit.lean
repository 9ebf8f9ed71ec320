import AdviceMigration.Source.Parse.Stmt
import AdviceMigration.Source.Print.Unit

/-!
# Reading compilation units

Here the knot of the grammar is tied: `grammar n` allows `n` nested calls of recursive productions. Each of these calls comes after a token has been consumed, so the number of tokens is enough.
-/

namespace AdviceMigration.Source

open AdviceMigration.Text

namespace Grammar

/-- The productions over the given inner productions. -/
def step (g : Grammar) : Grammar where
  type := g.typeRef
  elementValue := g.annotValue
  expr := g.expression
  ternary := g.choice
  binary := g.operands
  unary := g.operand
  varInit := g.initialValue
  stmt := g.statement
  members := g.memberList

end Grammar

/-- The grammar with at most `depth` nested calls. -/
def grammar : (depth : Nat) → Grammar
  | 0 => .exhausted
  | depth + 1 => (grammar depth).step

namespace Grammar

def importDecl : Parser ImportDecl := do
  let (comments, blank) ← takeComments
  bump
  let isStatic ← eatKeyword .staticKw
  let first ← expectIdent "expected import path"
  let (path, isWildcard) ← loop (fun path => do
    if ← eatPunct .dot then
      if ← eatPunct .star then return .done (path, true)
      else
        let word ← expectIdent "expected identifier in import path"
        return .continue (path ++ "." ++ word)
    else return .done (path, false)) first
  expectPunct .semicolon "expected `;` after import"
  return ⟨comments, blank, isStatic, isWildcard, path⟩

def packageDecl : Parser (Option PackageDecl) := do
  if ← atKeyword .packageKw then
    let (comments, _) ← takeComments
    bump
    let name ← qualifiedName "expected package name"
    expectPunct .semicolon "expected `;` after package declaration"
    return some ⟨comments, name⟩
  else return none

def topLevelType (g : Grammar) : Parser TypeDecl := do
  let layout ← takeLayout
  let start ← position
  let (annots, modifiers) ← g.modifiers
  g.typeDecl layout annots modifiers start

/-- The type declarations up to the end of the text; stray semicolons are passed over. -/
def topLevelTypes (g : Grammar) : Parser (List TypeDecl) :=
  loop (fun types => do
    if ← eatPunct .semicolon then return .continue types
    else if ← atKind .eof then return .done types.reverse
    else
      let decl ← g.topLevelType
      return .continue (decl :: types)) []

/-- The lines in front of the header that started at the given token and ends here, and its text, if there is a header. -/
def capturedHeader (start : Nat) (package : Option PackageDecl) (imports : List ImportDecl) :
    Parser (Option Trivia × Option Verbatim) := do
  if package.isSome || !imports.isEmpty then
    let leading ← trivia start (CompilationUnit.headerComments package imports) false
    let header ← captureFrom start (canonicalText (headerDoc package imports))
    return (leading, some header)
  else return (none, none)

def compilationUnit (g : Grammar) : Parser CompilationUnit := do
  let newline := .detect (← get).source.toList
  let start ← position
  let package ← packageDecl
  let imports ← manyWhile (atKeyword .importKw) importDecl
  let (leading, header) ← capturedHeader start package imports
  let types ← g.topLevelTypes
  let (endComments, closing) ← takeClosing
  return ⟨package, imports, types, endComments, newline, leading, header, closing⟩

end Grammar

/-- A cursor at the start of a token stream, with identities from `nextId` on. -/
def Cursor.start (source : Array Char) (tokens : List Token) (nextId : NodeId) : Cursor :=
  { source := source, tokens := tokens.toArray, position := 0, noLambda := false,
    trailingEnd := none, nextId := nextId }

/-- Runs a production on a whole text. The identities it hands out start at `nextId`; the next unused one comes with the result. -/
def parseWith {α : Type} (production : Grammar → Parser α) (text : String) (nextId : NodeId) :
    Except ParseFailure (α × NodeId) :=
  match tokens text with
  | .error error => .error (.syntaxError error)
  | .ok tokens =>
    let cursor := Cursor.start text.toList.toArray tokens nextId
    match production (grammar (tokens.length + 1)) cursor with
    | .ok value cursor => .ok (value, cursor.nextId)
    | .error failure _ => .error failure

/-- Reads a compilation unit whose node identities start at `nextId`. -/
def parseUnit (text : String) (nextId : NodeId := 0) :
    Except ParseFailure (CompilationUnit × NodeId) :=
  parseWith Grammar.compilationUnit text nextId

end AdviceMigration.Source
