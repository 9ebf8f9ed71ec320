/-!
# JSON output

Values as JSON text over several lines, two blanks for each level.
-/

namespace AdviceMigration.Text

inductive JsonValue where
  | number (value : Nat)
  | string (text : String)
  | array (items : List JsonValue)
  | object (fields : List (String × JsonValue))

namespace JsonValue

def hexDigit (n : Nat) : Char := Nat.digitChar (n % 16)

def escapeChar (c : Char) : List Char :=
  if c == '"' then ['\\', '"']
  else if c == '\\' then ['\\', '\\']
  else if c == '\n' then ['\\', 'n']
  else if c == '\r' then ['\\', 'r']
  else if c == '\t' then ['\\', 't']
  else if c == '\x08' then ['\\', 'b']
  else if c == '\x0c' then ['\\', 'f']
  else if c.toNat < 0x20 then ['\\', 'u', '0', '0', hexDigit (c.toNat / 16), hexDigit c.toNat]
  else [c]

def quoted (text : String) : String :=
  String.ofList ('"' :: text.toList.flatMap escapeChar ++ ['"'])

/-- A line break and the blanks of a level. -/
def lineAt (level : Nat) : String := "\n" ++ String.ofList (List.replicate (2 * level) ' ')

mutual
/-- A value whose first line stands at the given level. -/
def textAt (level : Nat) : JsonValue → String
  | .number value => toString value
  | .string text => quoted text
  | .array [] => "[]"
  | .array (item :: rest) =>
    "[" ++ lineAt (level + 1) ++ item.textAt (level + 1) ++ itemsText (level + 1) rest ++
      lineAt level ++ "]"
  | .object [] => "\x7b\x7d"
  | .object ((name, value) :: rest) =>
    "\x7b" ++ lineAt (level + 1) ++ quoted name ++ ": " ++ value.textAt (level + 1) ++
      fieldsText (level + 1) rest ++ lineAt level ++ "\x7d"

def itemsText (level : Nat) : List JsonValue → String
  | [] => ""
  | item :: rest => "," ++ lineAt level ++ item.textAt level ++ itemsText level rest

def fieldsText (level : Nat) : List (String × JsonValue) → String
  | [] => ""
  | (name, value) :: rest =>
    "," ++ lineAt level ++ quoted name ++ ": " ++ value.textAt level ++ fieldsText level rest
end

def text (value : JsonValue) : String := value.textAt 0

end JsonValue

end AdviceMigration.Text
