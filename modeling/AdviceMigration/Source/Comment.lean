import AdviceMigration.Text.Newline

/-!
# Comments and captured layout

A declaration or statement remembers how it was written: its comments, whether an empty line stands in front of it, the text between it and the node before it (`Trivia`), and its own text (`Verbatim`). Captured text is reused only while it still stands for the node: trivia as long as the comments and the empty line are the ones it was read with, own text as long as the node still prints to the same canonical form.
-/

namespace AdviceMigration.Source

inductive CommentKind where
  | line
  | block
  | doc
  deriving DecidableEq, Repr, Inhabited

/-- A comment with its delimiters, and whether an empty line precedes it. -/
structure Comment where
  kind : CommentKind
  text : String
  blankLineBefore : Bool
  deriving DecidableEq, Repr, Inhabited

def Comment.ofLine (words : String) : Comment :=
  ⟨.line, "// " ++ words, false⟩

/-- The lines in front of a node or a closing brace, with the comments and the empty line flag they were read with. -/
structure Trivia where
  text : String
  comments : List Comment
  blankLineBefore : Bool
  deriving DecidableEq, Repr, Inhabited

/-- The captured lines, if they still stand for these comments and this flag. -/
def Trivia.textFor? (trivia : Option Trivia) (comments : List Comment) (blankLineBefore : Bool) :
    Option String :=
  match trivia with
  | none => none
  | some t =>
    if t.comments = comments ∧ t.blankLineBefore = blankLineBefore then some t.text else none

/-- The text of a node as it was written, whether it includes the start of its line, and what the node printed to when it was read. -/
structure Verbatim where
  text : String
  startsLine : Bool
  canonical : String
  deriving DecidableEq, Repr, Inhabited

/-- What surrounds a declaration or statement. -/
structure Layout where
  comments : List Comment := []
  blankLineBefore : Bool := false
  leading : Option Trivia := none
  verbatim : Option Verbatim := none
  deriving DecidableEq, Repr, Inhabited

def Layout.unwritten : Layout := {}

end AdviceMigration.Source
