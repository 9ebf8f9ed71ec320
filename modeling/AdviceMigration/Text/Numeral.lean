/-!
# Numerals

The value of digits in a radix of up to 36.
-/

namespace AdviceMigration.Text

/-- The value of a digit in the given radix, letters in either case. -/
def digitValue? (radix : Nat) (c : Char) : Option Nat :=
  let value :=
    if c.isDigit then c.toNat - '0'.toNat
    else if 'a' ≤ c && c ≤ 'z' then c.toNat - 'a'.toNat + 10
    else if 'A' ≤ c && c ≤ 'Z' then c.toNat - 'A'.toNat + 10
    else radix
  if value < radix then some value else none

/-- The value of digits that follow a number with the value `high`. -/
def digitsValue? (radix high : Nat) : List Char → Option Nat
  | [] => some high
  | c :: rest =>
    match digitValue? radix c with
    | some digit => digitsValue? radix (high * radix + digit) rest
    | none => none

/-- The value of a numeral of at least one digit. -/
def numeralValue? (radix : Nat) : List Char → Option Nat
  | [] => none
  | digits => digitsValue? radix 0 digits

end AdviceMigration.Text
