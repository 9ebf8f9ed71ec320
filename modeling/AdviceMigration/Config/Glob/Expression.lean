import AdviceMigration.Config.Glob

/-!
# Patterns as regular expressions

A pattern stands for a regular expression over bytes. Its groups, repetitions, classes and sequences may be nested only so deep, and messages about a pattern that goes deeper show the expression.
-/

namespace AdviceMigration.Config

def nestingLimit : Nat := 250

/-- Characters with a meaning of their own in expressions. -/
def metaChars : List Char :=
  ['\\', '.', '+', '*', '?', '(', ')', '|', '[', ']', '\x7b', '\x7d', '^', '$', '#', '&', '-', '~']

/-- A byte as an expression: ASCII characters as they are, with a backslash if they mean something else, and other bytes in hexadecimal. -/
def byteExpression (byte : UInt8) : String :=
  if byte.toNat < 128 then
    let c := Char.ofNat byte.toNat
    if metaChars.contains c then "\\" ++ String.singleton c else String.singleton c
  else "\\x" ++ String.ofList (Nat.toDigits 16 byte.toNat)

def charExpression (c : Char) : String :=
  String.join ((String.utf8EncodeChar c).map byteExpression)

/-- A range of characters as an item of a class. -/
def rangeExpression (range : Char × Char) : String :=
  if range.1 = range.2 then charExpression range.1
  else charExpression range.1 ++ "-" ++ charExpression range.2

namespace GlobPart

mutual
def expression : GlobPart → String
  | .literal c => charExpression c
  | .anyByte => "."
  | .anyBytes => ".*"
  | .leadingDirs => "(?:/?|.*/)"
  | .allBelow => "/.*"
  | .innerDirs => "(?:/|/.*/)"
  | .oneOf negated ranges =>
    (if negated then "[^" else "[") ++ String.join (ranges.map rangeExpression) ++ "]"
  | .choice options =>
    if areOptionsVacuous options then ""
    else "(?:" ++ String.intercalate "|" (optionExpressions options) ++ ")"

def sequenceExpression : List GlobPart → String
  | [] => ""
  | part :: rest => part.expression ++ sequenceExpression rest

/-- The expressions of the options that have something in them. -/
def optionExpressions : List (List GlobPart) → List String
  | [] => []
  | option :: rest =>
    if areVacuous option then optionExpressions rest
    else sequenceExpression option :: optionExpressions rest
end

/-! ### Nesting -/

/-- How many items the expression of a part has. -/
def itemCount : GlobPart → Nat
  | .literal c => c.utf8Size
  | .allBelow => 2
  | .choice options => if areOptionsVacuous options then 0 else 1
  | _ => 1

mutual
/-- How deep the items of a part's expression are nested. -/
def nesting : GlobPart → Nat
  | .literal _ => 0
  | .anyByte => 0
  | .anyBytes => 1
  | .leadingDirs => 4
  | .allBelow => 1
  | .innerDirs => 4
  | .oneOf _ ranges => if 2 ≤ (classBytes ranges).length then 2 else 1
  | .choice options =>
    if areOptionsVacuous options then 0
    else
      let count := (options.filter fun option => !areVacuous option).length
      optionsNesting options + if 2 ≤ count then 2 else 1

def deepest : List GlobPart → Nat
  | [] => 0
  | part :: rest => max part.nesting (deepest rest)

/-- The nesting of the deepest of several options. An option of several items is a sequence, which is one level more. -/
def optionsNesting : List (List GlobPart) → Nat
  | [] => 0
  | option :: rest =>
    let level := if (option.map itemCount).sum = 1 then deepest option else deepest option + 1
    max (if areVacuous option then 0 else level) (optionsNesting rest)
end

end GlobPart

namespace Glob

/-- A pattern as an expression for whole paths. -/
def expression (glob : Glob) : String :=
  match glob.parts with
  | [.leadingDirs] => "(?-u)^.*$"
  | parts => "(?-u)^" ++ GlobPart.sequenceExpression parts ++ "$"

def nesting (glob : Glob) : Nat := GlobPart.deepest glob.parts + 1

def isTooDeep (glob : Glob) : Bool := nestingLimit < glob.nesting

end Glob

end AdviceMigration.Config
