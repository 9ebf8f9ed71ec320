import AdviceMigration.Source.Token
import AdviceMigration.Source.Fault
import AdviceMigration.Text.Identifier
import AdviceMigration.Text.Blank

/-!
# Lexemes

A text is cut into lexemes: single blanks, line feeds, comments, tokens, and a byte order mark at the very start. Nothing is lost, so the characters of the lexemes put together are the text. Each scanner below looks at the rest of the text and answers how many characters its lexeme takes.
-/

namespace AdviceMigration.Source

open AdviceMigration.Text

inductive Lexeme where
  | byteOrderMark
  | blank (c : Char)
  | lineFeed
  | comment (kind : CommentKind) (chars : List Char)
  | token (kind : TokenKind) (chars : List Char)
  deriving DecidableEq, Repr, Inhabited

def byteOrderMark : Char := '\uFEFF'

/-- The characters of a lexeme, exactly as they stand in the text. -/
def Lexeme.chars : Lexeme → List Char
  | byteOrderMark => [Source.byteOrderMark]
  | blank c => [c]
  | lineFeed => ['\n']
  | comment _ cs => cs
  | token _ cs => cs

/-! ### Numbers -/

def isHexDigit (c : Char) : Bool :=
  c.isDigit || ('a' ≤ c && c ≤ 'f') || ('A' ≤ c && c ≤ 'F')

/-- How many decimal digits and underscores come first. -/
def digitRun (cs : List Char) : Nat :=
  (cs.takeWhile fun c => c.isDigit || c == '_').length

def hexRun (cs : List Char) : Nat :=
  (cs.takeWhile fun c => isHexDigit c || c == '_').length

/-- Length of an exponent after its mark: an optional sign and digits. -/
def exponentLength : List Char → Nat
  | '+' :: rest => 1 + digitRun rest
  | '-' :: rest => 1 + digitRun rest
  | rest => digitRun rest

/-- Kind and length of a number whose digits take `length` characters, given what comes after them. A suffix belongs to the number; after hexadecimal digits a floating suffix only counts once there is a point or an exponent. -/
def numberEnd (hex floating : Bool) (length : Nat) (rest : List Char) : LiteralKind × Nat :=
  match rest.head? with
  | some c =>
    if (c == 'l' || c == 'L') && !floating then (.long, length + 1)
    else if (c == 'f' || c == 'F') && (!hex || floating) then (.float, length + 1)
    else if (c == 'd' || c == 'D') && (!hex || floating) then (.double, length + 1)
    else if floating then (.double, length)
    else (.int, length)
  | none => if floating then (.double, length) else (.int, length)

/-- Kind and length of a binary number, given the text after its two-character mark. Digits that are not binary are taken all the same. -/
def binaryNumber (body : List Char) : LiteralKind × Nat :=
  let digits := hexRun body
  numberEnd false false (2 + digits) (body.drop digits)

/-- Kind and length of a hexadecimal number, given the text after its two-character mark. -/
def hexNumber (body : List Char) : LiteralKind × Nat :=
  let digits := hexRun body
  let fraction := match body.drop digits with
    | '.' :: rest => 1 + hexRun rest
    | _ => 0
  let exponent := match body.drop (digits + fraction) with
    | c :: rest => if c == 'p' || c == 'P' then 1 + exponentLength rest else 0
    | [] => 0
  let length := digits + fraction + exponent
  numberEnd true (fraction + exponent != 0) (2 + length) (body.drop length)

/-- Length of the fraction at the start of a text: a point that no word follows, and digits. -/
def fractionLength : List Char → Nat
  | '.' :: rest =>
    match rest.head? with
    | some c => if c.isDigit || !isAsciiIdent c then 1 + digitRun rest else 0
    | none => 1
  | _ => 0

def decimalNumber (cs : List Char) : LiteralKind × Nat :=
  let digits := digitRun cs
  let fraction := fractionLength (cs.drop digits)
  let exponent := match cs.drop (digits + fraction) with
    | c :: rest => if c == 'e' || c == 'E' then 1 + exponentLength rest else 0
    | [] => 0
  let length := digits + fraction + exponent
  numberEnd false (fraction + exponent != 0) length (cs.drop length)

/-- Kind and length of the number at the start of a text. -/
def number : List Char → LiteralKind × Nat
  | '0' :: mark :: body =>
    if mark == 'x' || mark == 'X' then hexNumber body
    else if mark == 'b' || mark == 'B' then binaryNumber body
    else decimalNumber ('0' :: mark :: body)
  | cs => decimalNumber cs

/-! ### Quoted literals and comments -/

/-- Length of a one-line literal after its opening quote, the closing quote included. A backslash protects the next character, whatever it is. -/
def quotedLength (quote : Char) : List Char → Option Nat
  | [] => none
  | '\\' :: _ :: rest => (quotedLength quote rest).map (· + 2)
  | c :: rest =>
    if c == quote then some 1
    else if c == '\n' then none
    else (quotedLength quote rest).map (· + 1)

/-- Length of a text block after its three opening quotes, the three closing quotes included. -/
def textBlockLength : List Char → Option Nat
  | [] => none
  | '\\' :: _ :: rest => (textBlockLength rest).map (· + 2)
  | '"' :: '"' :: '"' :: _ => some 3
  | _ :: rest => (textBlockLength rest).map (· + 1)

/-- Length of a block comment after its opening mark, the closing mark included. -/
def blockCommentLength : List Char → Option Nat
  | [] => none
  | '*' :: '/' :: _ => some 2
  | _ :: rest => (blockCommentLength rest).map (· + 1)

/-- The kind of a delimited comment: a documentation comment opens with two asterisks and is not empty. -/
def delimitedKind (chars : List Char) : CommentKind :=
  match chars with
  | '/' :: '*' :: '*' :: '/' :: _ => .block
  | '/' :: '*' :: '*' :: _ => .doc
  | _ => .block

/-! ### One lexeme -/

/-- The token at the start of a text whose first character is `c`. -/
def scanToken (c : Char) (rest : List Char) : Except Fault Lexeme :=
  if isIdentStart c then
    let word := c :: rest.takeWhile isIdentContinue
    .ok (.token (.ofWord (String.ofList word)) word)
  else if c.isDigit || (c == '.' && rest.head?.any Char.isDigit) then
    let (kind, length) := number (c :: rest)
    .ok (.token (.literal kind) ((c :: rest).take length))
  else if c == '"' then
    match rest with
    | '"' :: '"' :: body =>
      match textBlockLength body with
      | some length => .ok (.token (.literal .textBlock) ((c :: rest).take (3 + length)))
      | none => .error .unterminatedTextBlock
    | _ =>
      match quotedLength '"' rest with
      | some length => .ok (.token (.literal .string) ((c :: rest).take (1 + length)))
      | none => .error .unterminatedString
  else if c == '\x27' then
    match quotedLength '\x27' rest with
    | some length => .ok (.token (.literal .char) ((c :: rest).take (1 + length)))
    | none => .error .unterminatedChar
  else
    match Punct.ofStart? (c :: rest) with
    | some punct => .ok (.token (.punct punct) punct.text.toList)
    | none => .error (.strayChar c)

/-- The lexeme at the start of a text whose first character is `c`. A line comment runs to the end of its line. -/
def scan (c : Char) (rest : List Char) : Except Fault Lexeme :=
  match c, rest with
  | '/', '/' :: body => .ok (.comment .line ('/' :: '/' :: body.takeWhile (· != '\n')))
  | '/', '*' :: body =>
    match blockCommentLength body with
    | some length =>
      let chars := '/' :: '*' :: body.take length
      .ok (.comment (delimitedKind chars) chars)
    | none => .error .unterminatedComment
  | '\n', _ => .ok .lineFeed
  | c, rest => if isBlank c then .ok (.blank c) else scanToken c rest

/-- The lexemes of a text, in front of which `position` characters have been read. `skip` characters still belong to the last lexeme; `read` holds the lexemes so far, last first. -/
def lexemesFrom (position : Nat) (skip : Nat) (read : List Lexeme) :
    List Char → Except (Nat × Fault) (List Lexeme)
  | [] => .ok read.reverse
  | c :: rest =>
    match skip with
    | skip + 1 => lexemesFrom (position + 1) skip read rest
    | 0 =>
      match scan c rest with
      | .ok lexeme => lexemesFrom (position + 1) (lexeme.chars.length - 1) (lexeme :: read) rest
      | .error fault => .error (position, fault)

/-- The lexemes of a text, or the first fault and the character index where its lexeme starts. -/
def lexemes (cs : List Char) : Except (Nat × Fault) (List Lexeme) :=
  match cs with
  | c :: rest =>
    if c == byteOrderMark then lexemesFrom 1 0 [.byteOrderMark] rest
    else lexemesFrom 0 0 [] cs
  | [] => .ok []

end AdviceMigration.Source
