import AdviceMigration.Source.Comment

/-!
# Tokens

The words and signs of the language, and the token that carries one of them together with the comments in front of it. The greater-than sign is always a token of its own: shift and comparison operators that contain it are put together by the reader of expressions, so that nested type arguments close one by one.
-/

namespace AdviceMigration.Source

/-- Reserved words, other than the three that are literals. -/
inductive Keyword where
  | abstractKw | assertKw | booleanKw | breakKw | byteKw | caseKw | catchKw | charKw | classKw
  | continueKw | defaultKw | doKw | doubleKw | elseKw | enumKw | extendsKw | finalKw | finallyKw
  | floatKw | forKw | ifKw | implementsKw | importKw | instanceofKw | intKw | interfaceKw | longKw
  | nativeKw | newKw | packageKw | privateKw | protectedKw | publicKw | returnKw | shortKw
  | staticKw | strictfpKw | superKw | switchKw | synchronizedKw | thisKw | throwKw | throwsKw
  | transientKw | tryKw | voidKw | volatileKw | whileKw
  deriving DecidableEq, Repr, Inhabited

namespace Keyword

def word : Keyword → String
  | abstractKw => "abstract" | assertKw => "assert" | booleanKw => "boolean" | breakKw => "break"
  | byteKw => "byte" | caseKw => "case" | catchKw => "catch" | charKw => "char"
  | classKw => "class" | continueKw => "continue" | defaultKw => "default" | doKw => "do"
  | doubleKw => "double" | elseKw => "else" | enumKw => "enum" | extendsKw => "extends"
  | finalKw => "final" | finallyKw => "finally" | floatKw => "float" | forKw => "for"
  | ifKw => "if" | implementsKw => "implements" | importKw => "import"
  | instanceofKw => "instanceof" | intKw => "int" | interfaceKw => "interface" | longKw => "long"
  | nativeKw => "native" | newKw => "new" | packageKw => "package" | privateKw => "private"
  | protectedKw => "protected" | publicKw => "public" | returnKw => "return" | shortKw => "short"
  | staticKw => "static" | strictfpKw => "strictfp" | superKw => "super" | switchKw => "switch"
  | synchronizedKw => "synchronized" | thisKw => "this" | throwKw => "throw"
  | throwsKw => "throws" | transientKw => "transient" | tryKw => "try" | voidKw => "void"
  | volatileKw => "volatile" | whileKw => "while"

def all : List Keyword :=
  [abstractKw, assertKw, booleanKw, breakKw, byteKw, caseKw, catchKw, charKw, classKw, continueKw,
    defaultKw, doKw, doubleKw, elseKw, enumKw, extendsKw, finalKw, finallyKw, floatKw, forKw, ifKw,
    implementsKw, importKw, instanceofKw, intKw, interfaceKw, longKw, nativeKw, newKw, packageKw,
    privateKw, protectedKw, publicKw, returnKw, shortKw, staticKw, strictfpKw, superKw, switchKw,
    synchronizedKw, thisKw, throwKw, throwsKw, transientKw, tryKw, voidKw, volatileKw, whileKw]

def ofWord? (text : String) : Option Keyword :=
  all.find? fun keyword => keyword.word == text

end Keyword

inductive Punct where
  | leftShiftEq | ellipsis | arrow | doubleColon | eqEq | bangEq | lessEq | leftShift | plusPlus
  | plusEq | minusMinus | minusEq | starEq | slashEq | percentEq | ampAmp | ampEq | pipePipe
  | pipeEq | caretEq | lParen | rParen | lBrace | rBrace | lBracket | rBracket | semicolon | comma
  | dot | at | question | colon | eq | bang | tilde | less | greater | plus | minus | star | slash
  | percent | amp | pipe | caret
  deriving DecidableEq, Repr, Inhabited

namespace Punct

def text : Punct → String
  | leftShiftEq => "<<=" | ellipsis => "..." | arrow => "->" | doubleColon => "::" | eqEq => "=="
  | bangEq => "!=" | lessEq => "<=" | leftShift => "<<" | plusPlus => "++" | plusEq => "+="
  | minusMinus => "--" | minusEq => "-=" | starEq => "*=" | slashEq => "/=" | percentEq => "%="
  | ampAmp => "&&" | ampEq => "&=" | pipePipe => "||" | pipeEq => "|=" | caretEq => "^="
  | lParen => "(" | rParen => ")" | lBrace => "\x7b" | rBrace => "\x7d" | lBracket => "["
  | rBracket => "]" | semicolon => ";" | comma => "," | dot => "." | «at» => "@" | question => "?"
  | colon => ":" | eq => "=" | bang => "!" | tilde => "~" | less => "<" | greater => ">"
  | plus => "+" | minus => "-" | star => "*" | slash => "/" | percent => "%" | amp => "&"
  | pipe => "|" | caret => "^"

/-- Every operator and separator, longer spellings before shorter ones. -/
def all : List Punct :=
  [leftShiftEq, ellipsis, arrow, doubleColon, eqEq, bangEq, lessEq, leftShift, plusPlus, plusEq,
    minusMinus, minusEq, starEq, slashEq, percentEq, ampAmp, ampEq, pipePipe, pipeEq, caretEq,
    lParen, rParen, lBrace, rBrace, lBracket, rBracket, semicolon, comma, dot, «at», question, colon,
    eq, bang, tilde, less, greater, plus, minus, star, slash, percent, amp, pipe, caret]

/-- The longest operator or separator at the start of a text. -/
def ofStart? (cs : List Char) : Option Punct :=
  all.find? fun punct => punct.text.toList.isPrefixOf cs

end Punct

inductive LiteralKind where
  | int | long | float | double | char | string | textBlock | bool | null
  deriving DecidableEq, Repr, Inhabited

/-- The types that are reserved words. -/
inductive PrimitiveType where
  | boolean | byte | short | char | int | long | float | double
  deriving DecidableEq, Repr, Inhabited

def PrimitiveType.word : PrimitiveType → String
  | boolean => "boolean" | byte => "byte" | short => "short" | char => "char" | int => "int"
  | long => "long" | float => "float" | double => "double"

inductive TokenKind where
  | ident
  | literal (kind : LiteralKind)
  | keyword (keyword : Keyword)
  | punct (punct : Punct)
  | eof
  deriving DecidableEq, Repr, Inhabited

namespace TokenKind

def literalKind? : TokenKind → Option LiteralKind
  | literal kind => some kind
  | _ => none

def isLiteral (kind : TokenKind) : Bool := kind.literalKind?.isSome

def primitive? : TokenKind → Option PrimitiveType
  | keyword .booleanKw => some .boolean
  | keyword .byteKw => some .byte
  | keyword .shortKw => some .short
  | keyword .charKw => some .char
  | keyword .intKw => some .int
  | keyword .longKw => some .long
  | keyword .floatKw => some .float
  | keyword .doubleKw => some .double
  | _ => none

def isPrimitive (kind : TokenKind) : Bool := kind.primitive?.isSome

/-- The kind of a word: a literal, a reserved word or an identifier. -/
def ofWord (text : String) : TokenKind :=
  if text == "true" || text == "false" then literal .bool
  else if text == "null" then literal .null
  else match Keyword.ofWord? text with
    | some word => keyword word
    | none => ident

end TokenKind

/-- A comment waiting for the node after it. -/
structure LeadingComment where
  comment : Comment
  /-- Whether a line break separates it from the token or comment before it. -/
  newlineBefore : Bool
  /-- Character index just past the comment. -/
  stop : Nat
  deriving DecidableEq, Repr, Inhabited

/-- A token with its place in the text, given by character indices, and what stands in front of it. -/
structure Token where
  kind : TokenKind
  text : String
  start : Nat
  stop : Nat
  /-- A line break separates the token from the token or comment before it, or it is the first. -/
  newlineBefore : Bool
  /-- An empty line separates the token from the token or comment before it. -/
  blankLineBefore : Bool
  /-- The token starts where the one before it ends. -/
  joint : Bool
  leading : List LeadingComment
  deriving DecidableEq, Repr, Inhabited

end AdviceMigration.Source
