import AdviceMigration.Text.Place

/-!
# Syntax errors

Reading stops at the first fault: a file that is understood only in part must never be edited.
-/

namespace AdviceMigration.Source

open AdviceMigration.Text

inductive Fault where
  | unterminatedComment
  | unterminatedTextBlock
  | unterminatedString
  | unterminatedChar
  | strayChar (c : Char)
  /-- A token that breaks the grammar: what was wanted and the token's text, or nothing at the end of the file. -/
  | unexpected (wanted : String) (found : Option String)
  deriving DecidableEq, Repr, Inhabited

def Fault.message : Fault → String
  | unterminatedComment => "unterminated block comment"
  | unterminatedTextBlock => "unterminated text block"
  | unterminatedString => "unterminated string literal"
  | unterminatedChar => "unterminated character literal"
  | strayChar c => "unexpected character `" ++ String.ofList [c] ++ "`"
  | unexpected wanted none => wanted ++ ", found end of file"
  | unexpected wanted (some text) => wanted ++ ", found `" ++ text ++ "`"

/-- A fault and where it was met. -/
structure ParseError where
  fault : Fault
  place : Place
  deriving DecidableEq, Repr, Inhabited

/-- The wording of a syntax error without its place. -/
def ParseError.message (error : ParseError) : String := error.fault.message

/-- A syntax error as one line: place and wording. -/
def ParseError.describe (error : ParseError) : String :=
  toString error.place.line ++ ":" ++ toString error.place.column ++ ": " ++ error.message

end AdviceMigration.Source
