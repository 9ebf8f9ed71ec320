import AdviceMigration.Config.FileFilter
import AdviceMigration.Config.Toml.Document

/-!
# Settings

The settings of a run and how they are read from a file. Every table and every key may be left out. A table may also be given as an array of its values in order.
-/

namespace AdviceMigration.Config

structure Logging where
  level : String := "info"
  json : Bool := false
  deriving DecidableEq, Repr, Inhabited

/-- Which files a run works on, and with how many workers; zero workers leave the number open. -/
structure Batch where
  included : List String := ["**/*.java"]
  excluded : List String := []
  threads : Nat := 0
  deriving DecidableEq, Repr, Inhabited

structure Output where
  indentWidth : Nat := 4
  deriving DecidableEq, Repr, Inhabited

structure Settings where
  logging : Logging := {}
  batch : Batch := {}
  output : Output := {}
  deriving DecidableEq, Repr, Inhabited

/-! ### Values -/

namespace Toml.Value

def text? : Value → Option String
  | .text contents => some contents
  | _ => none

def truth? : Value → Option Bool
  | .truth value => some value
  | _ => none

/-- The number that a value is, if it is not negative. -/
def natural? : Value → Option Nat
  | .integer value => if 0 ≤ value then some value.toNat else none
  | _ => none

def texts? : Value → Option (List String)
  | .array items => items.mapM text?
  | _ => none

/-- The values of a table by name; nothing if it has other names. -/
def fields? (names : List String) : Value → Option (String → Option Value)
  | .table entries _ =>
    if entries.all fun entry => names.contains entry.1 then some (Table.find? entries) else none
  | .array items => some (Table.find? (names.zip items))
  | _ => none

end Toml.Value

def optional {α : Type} (default : α) (read : Toml.Value → Option α) : Option Toml.Value → Option α
  | none => some default
  | some value => read value

namespace Logging

def read (value : Toml.Value) : Option Logging := do
  let field ← value.fields? ["level", "json"]
  let level ← optional "info" Toml.Value.text? (field "level")
  let json ← optional false Toml.Value.truth? (field "json")
  return ⟨level, json⟩

end Logging

namespace Batch

def read (value : Toml.Value) : Option Batch := do
  let field ← value.fields? ["include", "exclude", "threads"]
  let included ← optional ["**/*.java"] Toml.Value.texts? (field "include")
  let excluded ← optional [] Toml.Value.texts? (field "exclude")
  let threads ← optional 0 Toml.Value.natural? (field "threads")
  return ⟨included, excluded, threads⟩

def filter (batch : Batch) : Except BadGlob FileFilter :=
  FileFilter.read batch.included batch.excluded

end Batch

def Output.read (value : Toml.Value) : Option Output := do
  let field ← value.fields? ["indent_width"]
  let indentWidth ← optional 4 Toml.Value.natural? (field "indent_width")
  return ⟨indentWidth⟩

/-! ### Files -/

inductive SettingsError where
  | malformed
  | badIndentWidth (width : Nat)
  | badGlob (bad : BadGlob)
  deriving DecidableEq, Repr, Inhabited

namespace SettingsError

def message : SettingsError → String
  | malformed => "failed to parse toml config"
  | badIndentWidth width =>
    "invalid config value `output.indent_width`: expected a value between 1 and 16, got " ++
      toString width
  | badGlob bad => "invalid glob `" ++ bad.pattern ++ "`: " ++ bad.reason

/-- The wording of an error, followed by that of its cause if it has one. -/
def chain : SettingsError → List String
  | badGlob bad => [(badGlob bad).message, bad.reason]
  | error => [error.message]

end SettingsError

namespace Settings

def ofTable (table : Toml.Table) : Option Settings := do
  let field ← (Toml.Value.table table false).fields? ["logging", "batch", "output"]
  let logging ← optional {} Logging.read (field "logging")
  let batch ← optional {} Batch.read (field "batch")
  let output ← optional {} Output.read (field "output")
  return ⟨logging, batch, output⟩

/-- Checks the indent width and then the patterns. -/
def check (settings : Settings) : Except SettingsError Unit :=
  let width := settings.output.indentWidth
  if width < 1 || 16 < width then .error (.badIndentWidth width)
  else
    match settings.batch.filter with
    | .error bad => .error (.badGlob bad)
    | .ok _ => .ok ()

def read (text : String) : Except SettingsError Settings :=
  match (Toml.read text).bind ofTable with
  | none => .error .malformed
  | some settings =>
    match settings.check with
    | .error error => .error error
    | .ok _ => .ok settings

end Settings

end AdviceMigration.Config
