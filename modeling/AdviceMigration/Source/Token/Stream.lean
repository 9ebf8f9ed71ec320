import AdviceMigration.Source.Token.Lexeme

/-!
# Token streams

The lexemes of a text become tokens. Comments are attached to the token after them; blanks and line feeds are summed up in flags. The stream ends with one token of kind `eof` that stands at the end of the text.
-/

namespace AdviceMigration.Source

open AdviceMigration.Text

/-- What has been read since the last token. -/
structure TokenReader where
  /-- Character index of the next lexeme. -/
  position : Nat := 0
  /-- Line feeds since the last token or comment. -/
  newlines : Nat := 0
  /-- Whether any blank or comment has come since the last token. -/
  sawTrivia : Bool := false
  /-- Comments since the last token, last first. -/
  pending : List LeadingComment := []
  /-- Tokens read so far, last first. -/
  tokens : List Token := []

namespace TokenReader

def push (reader : TokenReader) (kind : TokenKind) (chars : List Char) : TokenReader :=
  let first := reader.tokens.isEmpty
  let stop := reader.position + chars.length
  let token : Token :=
    { kind := kind
      text := String.ofList chars
      start := reader.position
      stop := stop
      newlineBefore := reader.newlines != 0 || first
      blankLineBefore := 1 < reader.newlines
      joint := !reader.sawTrivia && !first
      leading := reader.pending.reverse }
  { position := stop, tokens := token :: reader.tokens }

/-- The text that is kept of a comment: without carriage returns at the end of a line comment, and with bare line feeds inside other comments. -/
def commentText (kind : CommentKind) (chars : List Char) : List Char :=
  match kind with
  | .line => (chars.reverse.dropWhile (· == '\r')).reverse
  | _ => unifyChars chars

/-- How many characters a comment covers, carriage returns at the end of a line comment left out. -/
def commentLength (kind : CommentKind) (chars : List Char) : Nat :=
  match kind with
  | .line => (commentText kind chars).length
  | _ => chars.length

def take (reader : TokenReader) (lexeme : Lexeme) : TokenReader :=
  match lexeme with
  | .byteOrderMark => { reader with position := reader.position + 1 }
  | .blank _ => { reader with position := reader.position + 1, sawTrivia := true }
  | .lineFeed =>
    { reader with
      position := reader.position + 1, sawTrivia := true, newlines := reader.newlines + 1 }
  | .comment kind chars =>
    let comment : Comment :=
      ⟨kind, String.ofList (commentText kind chars), 1 < reader.newlines⟩
    let leading : LeadingComment :=
      { comment := comment
        newlineBefore := reader.newlines != 0 || reader.tokens.isEmpty
        stop := reader.position + commentLength kind chars }
    { reader with
      position := reader.position + chars.length
      sawTrivia := true
      newlines := 0
      pending := leading :: reader.pending }
  | .token kind chars => reader.push kind chars

end TokenReader

/-- The tokens that lexemes stand for, the final `eof` included. -/
def Token.ofLexemes (lexemes : List Lexeme) : List Token :=
  ((lexemes.foldl TokenReader.take {}).push .eof []).tokens.reverse

def tokens (text : String) : Except ParseError (List Token) :=
  match lexemes text.toList with
  | .ok pieces => .ok (Token.ofLexemes pieces)
  | .error (position, fault) => .error ⟨fault, Place.after (text.toList.take position)⟩

end AdviceMigration.Source
