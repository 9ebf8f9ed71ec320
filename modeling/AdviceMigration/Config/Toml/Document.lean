import AdviceMigration.Config.Toml.DateTime
import AdviceMigration.Config.Toml.Number

/-!
# Settings files

Reads the part of TOML that settings can use: values of every kind, dotted keys and tables with a header of one name. Nested headers and arrays of tables could only stand for a setting that does not exist, so they are refused like any other fault. A file with a fault has no value; there is nothing more to say about it.
-/

namespace AdviceMigration.Config.Toml

/-- How many names a dotted key may have. -/
def maxNames : Nat := 79

/-- How deep arrays and inline tables may be nested. -/
def maxLevels : Nat := 79

/-! ### Words and keys -/

def quoted : Reader String := fun cs =>
  (quotedText cs).map fun (text, rest) => (String.ofList text, rest)

/-- Consumes a value that is not made of others. -/
def scalar : Reader Value := fun cs =>
  match cs with
  | '"' :: _ => (Value.text <$> quoted) cs
  | '\x27' :: _ => (Value.text <$> quoted) cs
  | 't' :: 'r' :: 'u' :: 'e' :: rest => some (.truth true, rest)
  | 'f' :: 'a' :: 'l' :: 's' :: 'e' :: rest => some (.truth false, rest)
  | _ => (dateTime <|> number) cs

/-- Whether a character may stand in a key without quotes. -/
def isKeyChar (c : Char) : Bool := c.isAlphanum || c == '-' || c == '_'

/-- Consumes one name of a key. -/
def simpleKey : Reader String := fun cs =>
  match cs with
  | '"' :: rest => (basicText rest).map fun (text, rest) => (String.ofList text, rest)
  | '\x27' :: rest => (literalText rest).map fun (text, rest) => (String.ofList text, rest)
  | _ =>
    match cs.takeWhile isKeyChar with
    | [] => none
    | name => some (String.ofList name, cs.dropWhile isKeyChar)

/-- Consumes a dotted key with the blanks around its names. At most `names` of them are read. -/
def dottedKey : (names : Nat) → Reader (List String)
  | 0 => failure
  | names + 1 => do
    spaces
    let name ← simpleKey
    spaces
    match ← get with
    | '.' :: rest =>
      set rest
      return name :: (← dottedKey names)
    | _ => return [name]

/-! ### Values -/

/-- Consumes the items of an array and its closing bracket, at most `count` of them. A comma may follow the last item. -/
def items (item : Reader Value) : (count : Nat) → Reader (List Value)
  | 0 => failure
  | count + 1 => do
    gap
    match ← get with
    | ']' :: rest =>
      set rest
      return []
    | _ =>
      let first ← item
      gap
      match ← get with
      | ',' :: rest =>
        set rest
        return first :: (← items item count)
      | _ =>
        expect ']'
        return [first]

/-- Consumes the pairs of an inline table and its closing brace, at most `count` of them. -/
def pairs (item : Reader Value) : (count : Nat) → Table → Reader Table
  | 0, _ => failure
  | count + 1, table => do
    let key ← dottedKey maxNames
    expect '='
    spaces
    let first ← item
    spaces
    match Table.insert? first key table with
    | none => failure
    | some table =>
      match ← get with
      | ',' :: rest =>
        set rest
        pairs item count table
      | _ =>
        expect '\x7d'
        return table

/-- Consumes a value, in which arrays and tables may be nested so many levels deep. None of them has more than `count` items; the number of characters is enough. -/
def value (count : Nat) : (levels : Nat) → Reader Value
  | 0 => scalar
  | levels + 1 => fun cs =>
    match cs with
    | '[' :: rest => (Value.array <$> items (value count levels) count) rest
    | '\x7b' :: rest =>
      match spaces rest with
      | some (_, '\x7d' :: rest) => some (.table [] false, rest)
      | _ => ((fun entries => Value.table entries false) <$> pairs (value count levels) count []) rest
    | _ => scalar cs

/-! ### Files -/

/-- A line that sets something. -/
inductive Line where
  | header (name : String)
  | pair (key : List String) (value : Value)

def header : Reader Line := do
  match ← dottedKey maxNames with
  | [name] =>
    expect ']'
    lineEnd
    return .header name
  | _ => failure

def pair : Reader Line := do
  let key ← dottedKey maxNames
  expect '='
  spaces
  let item ← value (← get).length maxLevels
  lineEnd
  return .pair key item

/-- Consumes the lines of a file, at most `count` of them. Empty lines and comments set nothing. -/
def fileLines : (count : Nat) → Reader (List Line)
  | 0 => do
    match ← get with
    | [] => return []
    | _ => failure
  | count + 1 => do
    spaces
    match ← get with
    | [] => return []
    | '#' :: _ =>
      lineEnd
      fileLines count
    | '\n' :: _ =>
      lineEnd
      fileLines count
    | '\r' :: _ =>
      lineEnd
      fileLines count
    | '[' :: rest =>
      set rest
      let line ← header
      return line :: (← fileLines count)
    | _ =>
      let line ← pair
      return line :: (← fileLines count)

/-- Adds lines to a file's table. Pairs go to the table of the last header; before the first one they go to the file's own. A name that is set already cannot have a header. -/
def assemble : (root : Table) → (current : Option (String × Table)) → List Line → Option Table
  | root, none, [] => some root
  | root, some (name, table), [] => Table.insert? (.table table false) [name] root
  | root, none, .header name :: rest =>
    if (root.find? name).isSome then none else assemble root (some (name, [])) rest
  | root, some (current, table), .header name :: rest =>
    match Table.insert? (.table table false) [current] root with
    | none => none
    | some root => if (root.find? name).isSome then none else assemble root (some (name, [])) rest
  | root, none, .pair key item :: rest =>
    match Table.insert? item key root with
    | none => none
    | some root => assemble root none rest
  | root, some (name, table), .pair key item :: rest =>
    match Table.insert? item key table with
    | none => none
    | some table => assemble root (some (name, table)) rest

/-- The table a settings file stands for; a byte order mark in front is skipped. -/
def read (text : String) : Option Table :=
  let cs := match text.toList with
    | '\uFEFF' :: rest => rest
    | cs => cs
  match fileLines (cs.length + 1) cs with
  | some (lines, []) => assemble [] none lines
  | _ => none

end AdviceMigration.Config.Toml
