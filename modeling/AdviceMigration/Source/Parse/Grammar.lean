import AdviceMigration.Source.Parse.Cursor

/-!
# The recursive productions

The productions of the grammar call each other in circles. Each is written over a `Grammar`, the record of the productions it may call again after it has consumed a token; tying the knot is left to `Source.Parse.Unit`.
-/

namespace AdviceMigration.Source

/-- The productions that a production may call again. -/
structure Grammar where
  type : Parser TypeRef
  elementValue : Parser ElementValue
  expr : Parser Expr
  ternary : Parser Expr
  /-- A sequence of operands whose operators bind tighter than the given strength. -/
  binary : Nat → Parser Expr
  unary : Parser Expr
  varInit : Parser Expr
  stmt : Parser Stmt
  /-- The members of a class body with what stands in front of the closing brace, which is passed. -/
  members : Parser (List Member × List Comment × Option Trivia)

/-- The productions once the nesting bound is met. -/
def Grammar.exhausted : Grammar where
  type := throw .outOfFuel
  elementValue := throw .outOfFuel
  expr := throw .outOfFuel
  ternary := throw .outOfFuel
  binary := fun _ => throw .outOfFuel
  unary := throw .outOfFuel
  varInit := throw .outOfFuel
  stmt := throw .outOfFuel
  members := throw .outOfFuel

end AdviceMigration.Source
