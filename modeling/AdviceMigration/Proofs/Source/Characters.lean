import AdviceMigration.Source.Parse.Unit

/-!
# Reading characters

The parser looks at a text only through its characters. A literal is by definition the text of a list of characters, so where the parser is run on a literal, it can be run on that list.
-/

namespace AdviceMigration.Source

open AdviceMigration.Text

theorem toList_append_eq {first second : String} {chars chars' : List Char}
    (h : first.toList = chars) (h' : second.toList = chars') :
    (first ++ second).toList = chars ++ chars' := by
  rw [String.toList_append, h, h']

/-- Reads a compilation unit from the characters of a text. -/
def parseChars (chars : List Char) (nextId : NodeId) :
    Except ParseFailure (CompilationUnit × NodeId) :=
  match lexemes chars with
  | .error (position, fault) => .error (.syntaxError ⟨fault, Place.after (chars.take position)⟩)
  | .ok pieces =>
    let tokens := Token.ofLexemes pieces
    match Grammar.compilationUnit (grammar (tokens.length + 1))
      (Cursor.start chars.toArray tokens nextId) with
    | .ok unit cursor => .ok (unit, cursor.nextId)
    | .error failure _ => .error failure

theorem parseUnit_eq_parseChars {text : String} {chars : List Char} (h : text.toList = chars)
    (nextId : NodeId) : parseUnit text nextId = parseChars chars nextId := by
  subst h
  rw [parseUnit, parseWith, tokens, parseChars]
  cases lexemes text.toList with
  | error => rfl
  | ok pieces =>
    dsimp only
    cases Grammar.compilationUnit (grammar ((Token.ofLexemes pieces).length + 1))
      (Cursor.start text.toList.toArray (Token.ofLexemes pieces) nextId) <;> rfl

end AdviceMigration.Source
