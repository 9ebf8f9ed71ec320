import AdviceMigration.Text.Blank

/-!
# Log levels

The level that a run logs at: the one of the environment if it names one, or else the configured one. Names are taken in any case and with blanks around them.
-/

namespace AdviceMigration.Config

inductive LogLevel where
  | off
  | error
  | warn
  | info
  | debug
  | trace
  deriving DecidableEq, Repr, Inhabited

namespace LogLevel

def name : LogLevel → String
  | off => "off"
  | error => "error"
  | warn => "warn"
  | info => "info"
  | debug => "debug"
  | trace => "trace"

def all : List LogLevel := [off, error, warn, info, debug, trace]

/-- A text without blanks at its ends, in lower case. -/
def normalized (text : String) : String :=
  String.ofList ((Text.trim text.toList).map Char.toLower)

def ofName? (text : String) : Option LogLevel :=
  all.find? fun level => level.name == normalized text

/-- The configured level. It may be left empty, and warnings have a longer name here. -/
def ofSetting? (text : String) : Option LogLevel :=
  if normalized text == "" then some info
  else if normalized text == "warning" then some warn
  else ofName? text

/-- The level of a run, given the setting and the environment's wish. What names no level does not count. -/
def effective (setting : String) (wish : Option String) : LogLevel :=
  let configured := (ofSetting? setting).getD info
  match wish with
  | none => configured
  | some wish => (ofName? wish).getD configured

end LogLevel

end AdviceMigration.Config
