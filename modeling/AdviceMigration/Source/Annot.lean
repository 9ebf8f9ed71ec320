import AdviceMigration.Source.Print.Tree
import AdviceMigration.Text.Numeral

/-!
# Annotation values

Looking up and removing the values of an annotation, and the values that literals stand for.
-/

namespace AdviceMigration.Source

open AdviceMigration.Text

namespace Annot

/-- The value of an element. A value without a name is the element `value`. -/
def element? (annot : Annot) (name : String) : Option ElementValue :=
  match annot with
  | .marker _ => none
  | .single _ value => if name == "value" then some value else none
  | .pairs _ named => (named.find? fun pair => pair.name == name).map (·.value)

/-- The shortest form that carries the given named values. -/
def ofPairs (name : String) : List ElementPair → Annot
  | [] => .marker name
  | [pair] => if pair.name == "value" then .single name pair.value else .pairs name [pair]
  | named => .pairs name named

/-- The annotation without an element, in the shortest form that carries the others; nothing if it has no such element. -/
def without? (annot : Annot) (name : String) : Option Annot :=
  match annot with
  | .marker _ => none
  | .single own _ => if name == "value" then some (.marker own) else none
  | .pairs own named =>
    if named.any fun pair => pair.name == name then
      some (ofPairs own (named.filter fun pair => pair.name != name))
    else none

def without (annot : Annot) (name : String) : Annot :=
  (annot.without? name).getD annot

def text (annot : Annot) : String :=
  render (annot.doc .canonical)

end Annot

/-! ### Integer literals -/

/-- A number below 2^32 read as a 32-bit number in two's complement; nothing for larger ones. -/
def signed32? (value : Nat) : Option Int :=
  if value < Nat.pow 2 31 then some value
  else if value < Nat.pow 2 32 then some ((value : Int) - Int.pow 2 32)
  else none

/-- The value of a numeral that may have a plus sign in front of it. -/
def unsignedValue? (radix : Nat) : List Char → Option Nat
  | '+' :: digits => numeralValue? radix digits
  | digits => numeralValue? radix digits

/-- The value of a decimal numeral that may have a sign in front of it, if it is a 32-bit number. -/
def decimalValue? : List Char → Option Int
  | '-' :: digits =>
    match numeralValue? 10 digits with
    | some value => if value ≤ Nat.pow 2 31 then some (-(value : Int)) else none
    | none => none
  | digits =>
    match unsignedValue? 10 digits with
    | some value => if value < Nat.pow 2 31 then some value else none
    | none => none

/-- The value of an integer literal without underscores. Hexadecimal, binary and octal numerals cover all 32 bits, decimal ones stay below 2^31. A numeral may have a sign, as one that was made from a number has. -/
def numberValue? : List Char → Option Int
  | '0' :: 'x' :: digits => (unsignedValue? 16 digits).bind signed32?
  | '0' :: 'X' :: digits => (unsignedValue? 16 digits).bind signed32?
  | '0' :: 'b' :: digits => (unsignedValue? 2 digits).bind signed32?
  | '0' :: 'B' :: digits => (unsignedValue? 2 digits).bind signed32?
  | '0' :: digit :: digits => (unsignedValue? 8 (digit :: digits)).bind signed32?
  | digits => decimalValue? digits

def intValue? (text : String) : Option Int :=
  numberValue? (text.toList.filter (· != '_'))

namespace ElementValue

/-- The literal a value is, possibly in one pair of parentheses. -/
def literal? : ElementValue → Option Literal
  | .expr (.literal literal) => some literal
  | .expr (.paren (.literal literal)) => some literal
  | _ => none

def bool? (value : ElementValue) : Option Bool :=
  match value.literal? with
  | some ⟨.bool, text⟩ =>
    if text == "true" then some true else if text == "false" then some false else none
  | _ => none

def int? (value : ElementValue) : Option Int :=
  match value.literal? with
  | some ⟨.int, text⟩ => intValue? text
  | _ => none

/-- The contents of a string literal, escapes left as written. -/
def string? (value : ElementValue) : Option String :=
  match value.literal? with
  | some ⟨.string, text⟩ =>
    match text.toList with
    | '"' :: rest =>
      match rest.reverse with
      | '"' :: contents => some (String.ofList contents.reverse)
      | _ => none
    | _ => none
  | _ => none

def text (value : ElementValue) : String :=
  render (value.doc .canonical)

end ElementValue

end AdviceMigration.Source
