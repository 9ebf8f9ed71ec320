import AdviceMigration.Config.Toml.Text

/-!
# Reading settings files

The steps from which the reader of a settings file is made, and what may stand between values: blanks, line breaks and comments.
-/

namespace AdviceMigration.Config.Toml

/-- A reading step: consumes characters from the front, or fails. -/
abbrev Reader := StateT (List Char) Option

/-! ### Blanks and line ends -/

/-- Skips blanks within a line. -/
def spaces : Reader Unit := modify fun cs => cs.dropWhile isSpace

def expect (expected : Char) : Reader Unit := fun cs =>
  match cs with
  | c :: rest => if c == expected then some ((), rest) else none
  | [] => none

def skipComment : List Char → List Char
  | '#' :: rest => rest.dropWhile isPlain
  | cs => cs

/-- Consumes the rest of a line, on which only a comment may stand. -/
def lineEnd : Reader Unit := fun cs =>
  match skipComment (cs.dropWhile isSpace) with
  | [] => some ((), [])
  | rest => (afterBreak? rest).map ((), ·)

/-- Characters without the blanks, line breaks and comments in front. -/
def skipGap : (inComment : Bool) → List Char → List Char
  | _, [] => []
  | _, '\n' :: rest => skipGap false rest
  | _, '\r' :: '\n' :: rest => skipGap false rest
  | false, '#' :: rest => skipGap true rest
  | true, c :: rest => if isPlain c then skipGap true rest else c :: rest
  | false, c :: rest => if isSpace c then skipGap false rest else c :: rest

def gap : Reader Unit := modify (skipGap false)

end AdviceMigration.Config.Toml
