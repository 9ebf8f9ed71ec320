import AdviceMigration.Source.Comment
import AdviceMigration.Text.Blank

/-!
# Printed documents

A document is a list of pieces: text that is written as it stands, and empty lines that are only asked for. Rendering writes an asked-for empty line unless the output is empty or already ends in one, so a document can be put together from parts that do not know their surroundings.
-/

namespace AdviceMigration.Source

open AdviceMigration.Text

inductive Piece where
  | text (text : String)
  | blankLine
  deriving DecidableEq, Repr

/-- A document, from left to right. -/
abbrev Doc := List Piece

def txt (text : String) : Doc := [.text text]

def lineBreak : Doc := txt "\n"

/-- Adds a piece to an output, whose characters are given last first. -/
def Piece.writeTo (output : List Char) : Piece → List Char
  | .text words => words.toList.reverse ++ output
  | .blankLine =>
    match output with
    | [] => []
    | '\n' :: '\n' :: _ => output
    | _ => '\n' :: output

def render (doc : Doc) : String :=
  String.ofList (doc.foldl Piece.writeTo []).reverse

def separated (separator : String) : List Doc → Doc
  | [] => []
  | [doc] => doc
  | doc :: rest => doc ++ txt separator ++ separated separator rest

structure PrintOptions where
  /-- Spaces for each nesting level, for code that is printed from the tree. -/
  indentWidth : Nat := 4
  /-- Whether captured text is reused where it still stands for its node. -/
  preserve : Bool := true
  deriving DecidableEq, Repr, Inhabited

/-- Options together with the current nesting level. -/
structure Style where
  options : PrintOptions
  level : Nat

namespace Style

def ofOptions (options : PrintOptions) : Style := ⟨options, 0⟩

/-- The layout by which the printed form of a node is recognised: from the tree, at the outermost level. -/
def canonical : Style := ⟨⟨4, false⟩, 0⟩

def deeper (style : Style) : Style := { style with level := style.level + 1 }

def indent (style : Style) : Doc :=
  txt (String.ofList (List.replicate (style.level * style.options.indentWidth) ' '))

end Style

/-! ### Comments and captured text -/

/-- A continuation line of a comment: its own indentation is replaced by the current one, and a leading asterisk is set off by a space. -/
def continuationLine (style : Style) (line : List Char) : Doc :=
  let line := trimStart line
  lineBreak ++ style.indent ++
    (if line.head? == some '*' then txt " " else []) ++ txt (String.ofList line)

def Comment.doc (comment : Comment) (style : Style) : Doc :=
  match lines comment.text with
  | [] => []
  | first :: rest => txt (String.ofList first) ++ rest.flatMap (continuationLine style)

/-- A comment on a line of its own. -/
def Comment.lineDoc (style : Style) (comment : Comment) : Doc :=
  style.indent ++ comment.doc style ++ lineBreak

/-- Comments on lines of their own, with the empty lines between them. -/
def Comment.listDoc (comments : List Comment) (style : Style) : Doc :=
  match comments with
  | [] => []
  | first :: rest =>
    first.lineDoc style ++ rest.flatMap fun comment =>
      (if comment.blankLineBefore then [.blankLine] else []) ++ comment.lineDoc style

/-- A comment after a node, on the same line. -/
def Comment.trailingDoc (comment : Option Comment) (style : Style) : Doc :=
  match comment with
  | none => []
  | some comment => txt " " ++ comment.doc style

/-- Captured lines, where they may be reused. -/
def Trivia.doc? (trivia : Option Trivia) (comments : List Comment) (blankLineBefore : Bool)
    (style : Style) : Option Doc :=
  if style.options.preserve then (Trivia.textFor? trivia comments blankLineBefore).map txt
  else none

/-- What stands in front of a member or statement. -/
def Layout.leadingDoc (layout : Layout) (style : Style) : Doc :=
  match Trivia.doc? layout.leading layout.comments layout.blankLineBefore style with
  | some doc => doc
  | none =>
    (if layout.blankLineBefore then [.blankLine] else []) ++ Comment.listDoc layout.comments style

/-- Comments in front of a closing brace, and the brace. `style` is that of the code in the braces' surroundings. -/
def closingBrace (closing : Option Trivia) (comments : List Comment) (style : Style) : Doc :=
  (match Trivia.doc? closing comments false style with
    | some doc => doc
    | none => Comment.listDoc comments style.deeper ++ style.indent) ++ txt "\x7d"

/-- The text by which the printed form of a node is recognised. -/
def canonicalText (own : Style → Doc) : String :=
  render (own .canonical)

/-- A node as it was written, while it still prints to the same canonical text; else printed from the tree. -/
def reuse (verbatim : Option Verbatim) (own : Style → Doc) (style : Style) : Doc :=
  match verbatim with
  | none => own style
  | some captured =>
    if style.options.preserve && canonicalText own == captured.canonical then
      (if captured.startsLine then [] else style.indent) ++ txt captured.text
    else own style

end AdviceMigration.Source
