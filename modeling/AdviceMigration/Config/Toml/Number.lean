import AdviceMigration.Config.Toml.Reader
import AdviceMigration.Config.Toml.Value
import AdviceMigration.Text.Numeral

/-!
# Numbers of settings files

Integers have 64 bits with a sign and may be written in four radixes. Other numbers are doubles. A decimal number starts with zero only if that is its whole integer part.
-/

namespace AdviceMigration.Config.Toml

/-! ### Digits -/

/-- Digits with single underscores between them, the underscores left out. -/
def groupedDigits? : List Char → Option (List Char)
  | [] => none
  | ['_'] => none
  | [digit] => some [digit]
  | '_' :: _ => none
  | digit :: '_' :: rest => (groupedDigits? rest).map (digit :: ·)
  | digit :: rest => (groupedDigits? rest).map (digit :: ·)

/-- Consumes digits of a radix with single underscores between them. -/
def digits (radix : Nat) : Reader (List Char) := fun cs =>
  let isPart := fun c => c == '_' || (Text.digitValue? radix c).isSome
  (groupedDigits? (cs.takeWhile isPart)).map (·, cs.dropWhile isPart)

/-- A sign in front of a number, if there is one: whether it is a minus, and the characters after it. -/
def takeSign : List Char → Bool × List Char
  | '+' :: rest => (false, rest)
  | '-' :: rest => (true, rest)
  | cs => (false, cs)

def decimalDigits : Reader (List Char) := do
  match ← digits 10 with
  | '0' :: _ :: _ => failure
  | numeral => return numeral

/-! ### Integers -/

/-- A number in 64 bits with a sign. -/
def fitted (value : Int) : Reader Value :=
  if -Int.pow 2 63 ≤ value && value < Int.pow 2 63 then pure (.integer value) else failure

/-- Consumes a number of the given radix, which has no sign. -/
def radixNumber (radix : Nat) : Reader Value := do
  let numeral ← digits radix
  match Text.numeralValue? radix numeral with
  | some value => fitted value
  | none => failure

/-- Consumes an integer. Only decimal ones may have a sign. -/
def integer : Reader Value := fun cs =>
  match cs with
  | '0' :: 'x' :: rest => radixNumber 16 rest
  | '0' :: 'o' :: rest => radixNumber 8 rest
  | '0' :: 'b' :: rest => radixNumber 2 rest
  | _ =>
    let (isNegative, rest) := takeSign cs
    match decimalDigits rest with
    | none => none
    | some (numeral, rest) =>
      match Text.numeralValue? 10 numeral with
      | some value => fitted (if isNegative then -(value : Int) else value) rest
      | none => none

/-! ### Doubles -/

/-- The least number that is nearer to the power of two after the largest double than to that double itself, or as near. -/
def doubleBound : Nat := Nat.pow 2 1024 - Nat.pow 2 970

/-- Whether digits times a power of ten are too large for a double. Numbers below `10 ^ 308` never are and those from `10 ^ 309` always, so that powers are only taken in between. -/
def isTooLarge (numeral : List Char) (exponent : Int) : Bool :=
  let significant := numeral.dropWhile (· == '0')
  let places := significant.length + exponent
  if significant.isEmpty || places < 309 then false
  else if 309 < places then true
  else
    match Text.numeralValue? 10 significant with
    | some value => doubleBound * Nat.pow 10 (-exponent).toNat ≤ value * Nat.pow 10 exponent.toNat
    | none => false

def fraction : Reader (List Char) := do
  expect '.'
  digits 10

def exponent : Reader Int := fun cs =>
  match cs with
  | c :: rest =>
    if c == 'e' || c == 'E' then
      let (isNegative, rest) := takeSign rest
      match digits 10 rest with
      | none => none
      | some (numeral, rest) =>
        (Text.numeralValue? 10 numeral).map fun value =>
          (if isNegative then -(value : Int) else value, rest)
    else none
  | [] => none

def scaledFraction : Reader (List Char × Int) := do
  let places ← fraction
  let power ← exponent <|> pure 0
  return (places, power)

/-- Consumes a fraction, an exponent, or both. -/
def scale : Reader (List Char × Int) :=
  scaledFraction <|> (([], ·) <$> exponent)

/-- Consumes a double that is a number. One that is too large is a fault, unless it is negative. -/
def finiteFloat : Reader Value := fun cs =>
  let (isNegative, rest) := takeSign cs
  match decimalDigits rest with
  | none => none
  | some (numeral, rest) =>
    match scale rest with
    | none => none
    | some ((places, power), rest) =>
      if !isNegative && isTooLarge (numeral ++ places) (power - places.length) then none
      else some (.float, rest)

/-- Consumes an infinity or what is no number, with a sign or without. -/
def specialFloat : Reader Value := fun cs =>
  match (takeSign cs).2 with
  | 'i' :: 'n' :: 'f' :: rest => some (.float, rest)
  | 'n' :: 'a' :: 'n' :: rest => some (.float, rest)
  | _ => none

def number : Reader Value := finiteFloat <|> specialFloat <|> integer

end AdviceMigration.Config.Toml
