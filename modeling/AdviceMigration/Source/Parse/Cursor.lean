import AdviceMigration.Source.Tree
import AdviceMigration.Source.Token.Stream

/-!
# The reading position

A parser works on a `Cursor`: the text, its tokens, the current position, and a supply of node identities. Comments leave their token when a node takes them. Going back to an earlier position gives no comments back, and a failure keeps the cursor as it was at that point.

Repetition is bounded by the number of tokens: every step of a loop consumes at least one, so the bound is never met. A parser that did meet it would answer `outOfFuel`, which is no syntax error. Neither is `outOfRange`, the answer where a token or a piece of the text is asked for that is not there; only a look ahead may go beyond the last token.
-/

namespace AdviceMigration.Source

open AdviceMigration.Text

structure Cursor where
  source : Array Char
  tokens : Array Token
  /-- Index of the current token. -/
  position : Nat
  /-- Set while the labels of a case are read, where an arrow ends the label. -/
  noLambda : Bool
  /-- The token whose first comment was taken by the node before it, and the index just past that comment. -/
  trailingEnd : Option (Nat × Nat)
  /-- The next unused node identity. -/
  nextId : NodeId

inductive ParseFailure where
  | syntaxError (error : ParseError)
  | outOfFuel
  /-- Something is asked for that is not there: a token, a piece of the text or an open parenthesis. -/
  | outOfRange
  deriving DecidableEq, Repr, Inhabited

abbrev Parser := EStateM ParseFailure Cursor

/-- The token that stands at and beyond the end of a text. -/
def Token.atEnd : Token :=
  { kind := .eof, text := "", start := 0, stop := 0, newlineBefore := false,
    blankLineBefore := false, joint := false, leading := [] }

namespace Cursor

def tokenAt (cursor : Cursor) (index : Nat) : Token :=
  cursor.tokens.getD index .atEnd

def current (cursor : Cursor) : Token :=
  cursor.tokenAt cursor.position

def slice (cursor : Cursor) (start stop : Nat) : List Char :=
  (cursor.source.extract start stop).toList

/-- Index of the start of the line that holds the character index `offset`. -/
def lineStart (cursor : Cursor) : (offset : Nat) → Nat
  | 0 => 0
  | offset + 1 => if cursor.source[offset]? == some '\n' then offset + 1 else cursor.lineStart offset

/-- Index of the first line feed among the `count` characters from `offset` on. -/
def findLineFeed (cursor : Cursor) (offset : Nat) : (count : Nat) → Option Nat
  | 0 => none
  | count + 1 =>
    if cursor.source[offset]? == some '\n' then some offset
    else cursor.findLineFeed (offset + 1) count

end Cursor

/-! ### Looking -/

/-- The cursor, which has to stand on a token. -/
def here : Parser Cursor := do
  let cursor ← get
  if cursor.position < cursor.tokens.size then return cursor else throw .outOfRange

def kind : Parser TokenKind := do
  return (← here).current.kind

/-- The kind of the token `n` places ahead. -/
def peek (n : Nat) : Parser TokenKind := do
  let cursor ← get
  return (cursor.tokenAt (cursor.position + n)).kind

def atKind (wanted : TokenKind) : Parser Bool := do
  return (← kind) == wanted

def atPunct (punct : Punct) : Parser Bool := atKind (.punct punct)

def atKeyword (keyword : Keyword) : Parser Bool := atKind (.keyword keyword)

def atIdent : Parser Bool := atKind .ident

def atWord (word : String) : Parser Bool := do
  let token := (← here).current
  return token.kind == .ident && token.text == word

def atBrackets : Parser Bool := do
  return (← atPunct .lBracket) && (← peek 1) == .punct .rBracket

def position : Parser Nat := do
  return (← get).position

/-! ### Moving -/

/-- Goes on to the next token; the last one is never passed. -/
def bump : Parser Unit :=
  modify fun cursor =>
    if cursor.position + 1 < cursor.tokens.size then
      { cursor with position := cursor.position + 1 }
    else cursor

def bumpTimes : Nat → Parser Unit
  | 0 => pure ()
  | n + 1 => do
    bump
    bumpTimes n

/-- The text of the current token, which is passed. -/
def bumpText : Parser String := do
  let text := (← here).current.text
  bump
  return text

/-- Passes the current token if it is of the given kind. -/
def eat (wanted : TokenKind) : Parser Bool := do
  if ← atKind wanted then
    bump
    return true
  else
    return false

def eatPunct (punct : Punct) : Parser Bool := eat (.punct punct)

def eatKeyword (keyword : Keyword) : Parser Bool := eat (.keyword keyword)

def complain {α : Type} (wanted : String) : Parser α := do
  let cursor ← here
  let token := cursor.current
  let found := if token.kind == .eof then none else some token.text
  throw (.syntaxError
    ⟨.unexpected wanted found, Place.after (cursor.source.extract 0 token.start).toList⟩)

/-- Passes a token of the given kind, or fails. -/
def expect (wanted : TokenKind) (message : String) : Parser Unit := do
  if ← eat wanted then pure () else complain message

def expectPunct (punct : Punct) (message : String) : Parser Unit := expect (.punct punct) message

def expectIdent (message : String) : Parser String := do
  if ← atIdent then bumpText else complain message

def freshId : Parser NodeId :=
  modifyGet fun cursor => (cursor.nextId, { cursor with nextId := cursor.nextId + 1 })

/-! ### Comments -/

/-- Takes the comments in front of the current token. The flag tells whether an empty line precedes the first of them, or the token itself when there are none. -/
def takeComments : Parser (List Comment × Bool) := do
  let token := (← here).current
  let blank := match token.leading with
    | [] => token.blankLineBefore
    | first :: _ => first.comment.blankLineBefore
  modify fun cursor =>
    { cursor with
      tokens := cursor.tokens.modify cursor.position fun token => { token with leading := [] } }
  return (token.leading.map (·.comment), blank)

/-- Takes a comment that shares its line with the token before it. -/
def takeTrailing : Parser (Option Comment) := do
  match (← here).current.leading with
  | first :: rest =>
    if first.newlineBefore then return none
    else
      modify fun cursor =>
        { cursor with
          trailingEnd := some (cursor.position, first.stop)
          tokens := cursor.tokens.modify cursor.position fun token =>
            { token with leading := rest } }
      return some first.comment
  | [] => return none

/-! ### Captured text -/

/-- The token with the given index, which has to be there. -/
def tokenOf (index : Nat) : Parser Token := do
  let cursor ← get
  if index < cursor.tokens.size then return cursor.tokenAt index else throw .outOfRange

/-- Makes sure that a piece of the text is there: it ends no earlier than it starts, and no later than the text. -/
def checkRange (start stop : Nat) : Parser Unit := do
  if start ≤ stop ∧ stop ≤ (← get).source.size then return () else throw .outOfRange

def cut (start stop : Nat) : Parser (List Char) := do
  checkRange start stop
  return (← get).slice start stop

/-- Index just past what stands in front of a token: the token before it, or the comment taken after that one. -/
def endBefore (index : Nat) : Parser Nat := do
  match (← get).trailingEnd with
  | some (taken, stop) =>
    if taken == index then return stop else return (← tokenOf (index - 1)).stop
  | none => return (← tokenOf (index - 1)).stop

/-- The index of the start of the line that holds a token, and whether the token is the first thing on it. -/
def lineOf (index : Nat) : Parser (Nat × Bool) := do
  let start := (← tokenOf index).start
  let line := (← get).lineStart start
  return (line, (← cut line start).all isBlank)

/-- Index of the first whole line between a token and what stands in front of it, if nothing else shares the line of the latter. -/
def gapStart (index : Nat) : Parser (Option Nat) := do
  if index == 0 then return some 0
  else
    let stop ← endBefore index
    let cursor ← get
    checkRange stop cursor.source.size
    match cursor.findLineFeed stop (cursor.source.size - stop) with
    | none => return none
    | some lineFeed =>
      if (← cut stop lineFeed).all isBlank then return some (lineFeed + 1) else return none

/-- The lines between a token that starts its line and what stands in front of it. With `indented` the text goes on up to the token itself. -/
def gap (index : Nat) (indented : Bool) : Parser (Option (List Char)) := do
  let (line, startsLine) ← lineOf index
  if startsLine then
    match ← gapStart index with
    | none => return none
    | some first =>
      if line < first then return none
      else
        let stop ← if indented then pure (← tokenOf index).start else pure line
        return some (← cut first stop)
  else return none

/-- The lines in front of a token, captured for a node with these comments. -/
def trivia (index : Nat) (comments : List Comment) (blankLineBefore : Bool) :
    Parser (Option Trivia) := do
  return (← gap index false).map fun chars =>
    ⟨String.ofList (unifyChars chars), comments, blankLineBefore⟩

/-- The lines in front of a closing token, its indentation included. -/
def closingTrivia (index : Nat) (comments : List Comment) : Parser (Option Trivia) := do
  return (← gap index true).map fun chars => ⟨String.ofList (unifyChars chars), comments, false⟩

/-- The layout of a node that starts here, its own text left open. -/
def takeLayout : Parser Layout := do
  let (comments, blank) ← takeComments
  let leading ← trivia (← position) comments blank
  return { comments := comments, blankLineBefore := blank, leading := leading }

def takeClosing : Parser (List Comment × Option Trivia) := do
  let (comments, _) ← takeComments
  return (comments, ← closingTrivia (← position) comments)

/-- The text of the node that started at the given token and ends here, the comment after it included, with what it prints to. -/
def captureFrom (start : Nat) (canonical : String) : Parser Verbatim := do
  let (line, startsLine) ← lineOf start
  let stop ← endBefore (← position)
  let first ← if startsLine then pure line else pure (← tokenOf start).start
  return ⟨String.ofList (unifyChars (← cut first stop)), startsLine, canonical⟩

/-! ### Trying, and repeating -/

/-- Runs a parser and answers nothing where it meets a syntax error. The position stays where the error was met. -/
def attempt {α : Type} (parser : Parser α) : Parser (Option α) := fun cursor =>
  match parser cursor with
  | .ok value cursor => .ok (some value) cursor
  | .error (.syntaxError _) cursor => .ok none cursor
  | .error failure cursor => .error failure cursor

def rewind (position : Nat) : Parser Unit :=
  modify fun cursor => { cursor with position := position }

/-- Runs a parser with lambda expressions allowed or not, and restores the setting afterwards. -/
def withNoLambda {α : Type} (noLambda : Bool) (parser : Parser α) : Parser α := fun cursor =>
  let outer := cursor.noLambda
  match parser { cursor with noLambda := noLambda } with
  | .ok value cursor => .ok value { cursor with noLambda := outer }
  | .error failure cursor => .error failure { cursor with noLambda := outer }

inductive LoopStep (α β : Type) where
  | continue (state : α)
  | done (result : β)

/-- Runs a step until it is done, at most `fuel` times. -/
def iterate {α β : Type} (step : α → Parser (LoopStep α β)) : (fuel : Nat) → α → Parser β
  | 0, _ => throw .outOfFuel
  | fuel + 1, state => do
    match ← step state with
    | .continue state => iterate step fuel state
    | .done result => return result

/-- Runs a step that consumes a token each time until it is done. -/
def loop {α β : Type} (step : α → Parser (LoopStep α β)) (state : α) : Parser β := do
  iterate step ((← get).tokens.size + 1) state

def manyWhile {α : Type} (condition : Parser Bool) (item : Parser α) : Parser (List α) :=
  loop (fun items => do
    if ← condition then
      let value ← item
      return .continue (value :: items)
    else
      return .done items.reverse) []

def separatedBy {α : Type} (separator : Punct) (item : Parser α) : Parser (List α) :=
  loop (fun items => do
    let value ← item
    if ← eatPunct separator then return .continue (value :: items)
    else return .done (value :: items).reverse) []

/-- Items with commas between them in front of the closing sign, which is not passed; a last comma may stand alone. -/
def listUntil {α : Type} (closing : Punct) (item : Parser α) : Parser (List α) :=
  loop (fun items => do
    if ← atPunct closing then return .done items.reverse
    else
      let value ← item
      if ← eatPunct .comma then return .continue (value :: items)
      else return .done (value :: items).reverse) []

end AdviceMigration.Source
