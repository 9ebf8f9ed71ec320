import AdviceMigration.Text.Numeral

/-!
# Text of a settings file

The four forms of quoted text. One pair of quotes encloses text on one line, three quotes on each side text over several lines; double quotes allow escapes, single quotes keep everything as it is. Each reader is given the characters after the opening quotes and answers the text and the characters after the closing ones.
-/

namespace AdviceMigration.Config.Toml

/-- A text that was read and the characters after it. -/
abbrev Scan := Option (List Char × List Char)

/-- Whether a character is a blank within a line. -/
def isSpace (c : Char) : Bool := c == ' ' || c == '\t'

/-- Whether a character may stand in text and comments: a tab, or anything but control characters. -/
def isPlain (c : Char) : Bool := c == '\t' || (0x20 ≤ c.toNat && c.toNat != 0x7F)

def Scan.cons (c : Char) : Scan → Scan
  | some (text, rest) => some (c :: text, rest)
  | none => none

/-! ### Escapes -/

/-- The character that an escape of one letter stands for. -/
def escape? : Char → Option Char
  | 'b' => some '\x08'
  | 't' => some '\t'
  | 'n' => some '\n'
  | 'f' => some '\x0c'
  | 'r' => some '\r'
  | '"' => some '"'
  | '\\' => some '\\'
  | _ => none

/-- The character with a code point in hexadecimal digits; nothing for surrogates and for numbers that are too large. -/
def scalar? (digits : List Char) : Option Char :=
  match Text.numeralValue? 16 digits with
  | none => none
  | some code => if code.isValidChar then some (Char.ofNat code) else none

/-! ### Text on one line -/

/-- Reads text up to a double quote. -/
def basicText : List Char → Scan
  | [] => none
  | '"' :: rest => some ([], rest)
  | '\\' :: 'u' :: a :: b :: c :: d :: rest =>
    match scalar? [a, b, c, d] with
    | some value => (basicText rest).cons value
    | none => none
  | '\\' :: 'U' :: a :: b :: c :: d :: e :: f :: g :: h :: rest =>
    match scalar? [a, b, c, d, e, f, g, h] with
    | some value => (basicText rest).cons value
    | none => none
  | '\\' :: c :: rest =>
    match escape? c with
    | some value => (basicText rest).cons value
    | none => none
  | c :: rest => if isPlain c then (basicText rest).cons c else none

/-- Reads text up to a single quote. -/
def literalText : List Char → Scan
  | [] => none
  | '\x27' :: rest => some ([], rest)
  | c :: rest => if isPlain c then (literalText rest).cons c else none

/-! ### Text over several lines -/

/-- The characters after a line break, if there is one in front. -/
def afterBreak? : List Char → Option (List Char)
  | '\n' :: rest => some rest
  | '\r' :: '\n' :: rest => some rest
  | _ => none

/-- What the next characters of a text over several lines are for. -/
inductive BlockMode where
  | text
  /-- After a backslash: blanks that a line break has to follow. -/
  | escapedBlanks
  /-- After an escaped line break: blanks and line breaks are left out. -/
  | trimming
  deriving DecidableEq

/-- Reads text up to three double quotes. Up to two more quotes in front of these belong to the text. -/
def basicBlock : BlockMode → List Char → Scan
  | _, [] => none
  | .escapedBlanks, '\n' :: rest => basicBlock .trimming rest
  | .escapedBlanks, '\r' :: '\n' :: rest => basicBlock .trimming rest
  | .escapedBlanks, c :: rest => if isSpace c then basicBlock .escapedBlanks rest else none
  | .trimming, '\n' :: rest => basicBlock .trimming rest
  | .trimming, '\r' :: '\n' :: rest => basicBlock .trimming rest
  | .trimming, ' ' :: rest => basicBlock .trimming rest
  | .trimming, '\t' :: rest => basicBlock .trimming rest
  | _, '"' :: '"' :: '"' :: '"' :: '"' :: rest => some (['"', '"'], rest)
  | _, '"' :: '"' :: '"' :: '"' :: rest => some (['"'], rest)
  | _, '"' :: '"' :: '"' :: rest => some ([], rest)
  | _, '\n' :: rest => (basicBlock .text rest).cons '\n'
  | _, '\r' :: '\n' :: rest => (basicBlock .text rest).cons '\n'
  | _, '\\' :: 'u' :: a :: b :: c :: d :: rest =>
    match scalar? [a, b, c, d] with
    | some value => (basicBlock .text rest).cons value
    | none => none
  | _, '\\' :: 'U' :: a :: b :: c :: d :: e :: f :: g :: h :: rest =>
    match scalar? [a, b, c, d, e, f, g, h] with
    | some value => (basicBlock .text rest).cons value
    | none => none
  | _, '\\' :: '\n' :: rest => basicBlock .trimming rest
  | _, '\\' :: '\r' :: '\n' :: rest => basicBlock .trimming rest
  | _, '\\' :: c :: rest =>
    match escape? c with
    | some value => (basicBlock .text rest).cons value
    | none => if isSpace c then basicBlock .escapedBlanks rest else none
  | _, c :: rest => if isPlain c then (basicBlock .text rest).cons c else none

/-- Reads text up to three single quotes. Up to two more quotes in front of these belong to the text. -/
def literalBlock : List Char → Scan
  | [] => none
  | '\x27' :: '\x27' :: '\x27' :: '\x27' :: '\x27' :: rest => some (['\x27', '\x27'], rest)
  | '\x27' :: '\x27' :: '\x27' :: '\x27' :: rest => some (['\x27'], rest)
  | '\x27' :: '\x27' :: '\x27' :: rest => some ([], rest)
  | '\n' :: rest => (literalBlock rest).cons '\n'
  | '\r' :: '\n' :: rest => (literalBlock rest).cons '\n'
  | c :: rest => if isPlain c then (literalBlock rest).cons c else none

def skipBreak (cs : List Char) : List Char := (afterBreak? cs).getD cs

/-- Reads a quoted text of any form; nothing if no quote comes first. -/
def quotedText : List Char → Scan
  | '"' :: '"' :: '"' :: rest => basicBlock .text (skipBreak rest)
  | '"' :: rest => basicText rest
  | '\x27' :: '\x27' :: '\x27' :: rest => literalBlock (skipBreak rest)
  | '\x27' :: rest => literalText rest
  | _ => none

end AdviceMigration.Config.Toml
