/-!
# Values of settings files

A settings file stands for a table of values.
-/

namespace AdviceMigration.Config.Toml

/-- A value of a settings file. No setting is a number with a fraction, a date or a time, so of these only the kind is kept. -/
inductive Value where
  | text (text : String)
  | integer (value : Int)
  | truth (value : Bool)
  /-- A number with a fraction or an exponent, an infinity, or no number. -/
  | float
  /-- A date, a time, or both. -/
  | dateTime
  | array (items : List Value)
  /-- A table; it is open while dotted keys may still add to it. -/
  | table (entries : List (String × Value)) (isOpen : Bool)

/-- Keys with their values, in the order in which they were set. -/
abbrev Table := List (String × Value)

def Table.find? (table : Table) (key : String) : Option Value :=
  (List.find? (fun entry => entry.1 == key) table).map (·.2)

/-- Sets the value at the end of a dotted key; nothing if it has one already or the key leads through a value. -/
def Table.insert? (value : Value) : (key : List String) → Table → Option Table
  | [], _ => none
  | [name], table =>
    if (table.find? name).isSome then none else some (table ++ [(name, value)])
  | name :: rest, table =>
    match table.find? name with
    | none => (Table.insert? value rest []).map fun inner => table ++ [(name, .table inner true)]
    | some (.table inner true) =>
      (Table.insert? value rest inner).map fun inner =>
        table.map fun entry => if entry.1 == name then (name, .table inner true) else entry
    | some _ => none

end AdviceMigration.Config.Toml
