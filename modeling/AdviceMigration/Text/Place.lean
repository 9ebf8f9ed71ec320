/-!
# Places in a text

The library addresses a text by character index. A `Place` is the view of such an index that people and tools are shown: a byte offset in UTF-8, a line and a column.
-/

namespace AdviceMigration.Text

/-- Number of bytes that characters take in UTF-8. -/
def utf8Length (cs : List Char) : Nat :=
  cs.foldl (fun total c => total + c.utf8Size) 0

/-- A position in a text. Lines and columns start at 1; columns count characters. -/
structure Place where
  offset : Nat
  line : Nat
  column : Nat
  deriving DecidableEq, Repr, Inhabited

namespace Place

def start : Place := ⟨0, 1, 1⟩

def next (place : Place) (c : Char) : Place :=
  if c = '\n' then ⟨place.offset + c.utf8Size, place.line + 1, 1⟩
  else ⟨place.offset + c.utf8Size, place.line, place.column + 1⟩

def after (before : List Char) : Place :=
  before.foldl next start

end Place

end AdviceMigration.Text
