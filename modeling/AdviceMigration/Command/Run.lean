import AdviceMigration.Advice.Migration
import AdviceMigration.Command.FileTree
import AdviceMigration.Command.Request
import AdviceMigration.Command.Summary
import AdviceMigration.Config.Settings

/-!
# Runs

What a request does to the files of a directory. A run reads the settings, migrates every selected file on its own and reports; an error in one file never stops the others. The run itself is a value: what to print, what to write and how to exit.
-/

namespace AdviceMigration.Command

open AdviceMigration.Advice AdviceMigration.Config AdviceMigration.Source

/-- What a run can read: the directory it works on, if there is one, and other files by their paths as written. -/
structure Surroundings where
  root : Option FileTree
  readText : String → Except ReadError String

/-! ### Settings -/

inductive ConfigFailure where
  | unreadable (path : String) (reason : ReadError)
  | invalid (error : SettingsError)

/-- The wording of a failure, followed by that of its cause. -/
def ConfigFailure.chain : ConfigFailure → List String
  | unreadable path reason =>
    ["failed to read config file " ++ path ++ ": " ++ reason.message, reason.message]
  | invalid error => error.chain

inductive RunError where
  | notDirectory (root : String)
  /-- The settings in the directory itself. -/
  | ownConfig (root : String) (failure : ConfigFailure)
  /-- The settings file that was asked for. -/
  | givenConfig (path : String) (failure : ConfigFailure)

def RunError.message : RunError → String
  | notDirectory root => root ++ " is not a directory"
  | ownConfig root failure =>
    String.intercalate ": " (("failed to load config for " ++ root) :: failure.chain)
  | givenConfig path failure =>
    String.intercalate ": " (("failed to load config " ++ path) :: failure.chain)

/-- The names of a directory's own settings file, the preferred one first. -/
def configNames : List String := ["indy.toml", ".indy.toml"]

def joinPath (root name : String) : String :=
  if root.endsWith "/" then root ++ name else root ++ "/" ++ name

/-- Reads the settings in a file's text, or says why there is none. -/
def readSettings (path : String) : Except ReadError String → Except ConfigFailure Settings
  | .error reason => .error (.unreadable path reason)
  | .ok text =>
    match Settings.read text with
    | .error error => .error (.invalid error)
    | .ok settings => .ok settings

def ownConfig? (tree : FileTree) : Option (String × Content) :=
  configNames.findSome? fun name =>
    match tree.child? name with
    | some (.file content) => some (name, content)
    | _ => none

/-- The settings of a run: those that were asked for, or else the directory's own, or else the defaults. -/
def loadSettings (request : Request) (surroundings : Surroundings) (tree : FileTree) :
    Except RunError Settings :=
  match request.config with
  | some path =>
    match readSettings path (surroundings.readText path) with
    | .error failure => .error (.givenConfig path failure)
    | .ok settings => .ok settings
  | none =>
    match ownConfig? tree with
    | none => .ok {}
    | some (name, content) =>
      match readSettings (joinPath request.root name) (FileTree.file content).text with
      | .error failure => .error (.ownConfig request.root failure)
      | .ok settings => .ok settings

/-! ### Files -/

/-- What a run does to a file: the report, and the new text of a file that changes. -/
structure FileResult where
  path : List String
  report : FileReport
  newText : Option String

def migrateFile (options : PrintOptions) (path : List String) (content : Content) : FileResult :=
  let name := String.intercalate "/" path
  match content with
  | .bytes => ⟨path, .failed name ("failed to read file: " ++ ReadError.notText.message), none⟩
  | .text text =>
    match migrateSource text options with
    | .error error => ⟨path, .failed name error.message, none⟩
    | .ok migration =>
      if migration.report.isChanged then
        ⟨path, .migrated name migration.report.classes, some migration.text⟩
      else ⟨path, .unchanged name, none⟩

/-- Migrates the files of a tree that a filter lets pass. -/
def migrateFiles (settings : Settings) (filter : FileFilter) (tree : FileTree) : List FileResult :=
  let options : PrintOptions := { indentWidth := settings.output.indentWidth }
  ((tree.files []).filter fun file => filter.accepts (String.intercalate "/" file.1)).map
    fun file => migrateFile options file.1 file.2

/-! ### Outcomes -/

/-- What a run prints, the error it ended with, the files it writes and its exit code. -/
structure Outcome where
  output : String
  errors : String
  failure : Option String
  writes : List (List String × String)
  exitCode : Nat

def unlines (lines : List String) : String :=
  String.join (lines.map fun line => line ++ "\n")

/-- The lines about single files on standard output. -/
def fileLines (mode : Mode) (summary : Summary) : List String :=
  match mode with
  | .diff => (summary.withStatus .migrated).flatMap FileReport.diffHead
  | .check => (summary.withStatus .migrated).map fun report => "needs migration: " ++ report.path
  | .write => []

def outputText (request : Request) (summary : Summary) : String :=
  if request.json then summary.json.text ++ "\n"
  else unlines (fileLines request.mode summary ++ summary.lines)

/-- The exit code of a run that worked on the files. A check also fails when something would change. -/
def exitCodeOf (mode : Mode) (summary : Summary) : Nat :=
  if 0 < summary.count .failed then 1
  else if mode == .check && 0 < summary.count .migrated then 1
  else 0

def writesOf (mode : Mode) (results : List FileResult) : List (List String × String) :=
  if mode == .write then
    results.filterMap fun result => result.newText.map fun text => (result.path, text)
  else []

def Outcome.failed (error : RunError) : Outcome := ⟨"", "", some error.message, [], 2⟩

def run (request : Request) (surroundings : Surroundings) : Outcome :=
  match surroundings.root with
  | none => .failed (.notDirectory request.root)
  | some tree =>
    match loadSettings request surroundings tree with
    | .error error => .failed error
    | .ok settings =>
      match settings.batch.filter with
      | .error bad => .failed (.ownConfig request.root (.invalid (.badGlob bad)))
      | .ok filter =>
        let results := migrateFiles settings filter tree
        let summary : Summary := results.map (·.report)
        { output := outputText request summary
          errors := if request.json then "" else unlines summary.errorLines
          failure := none
          writes := writesOf request.mode results
          exitCode := exitCodeOf request.mode summary }

end AdviceMigration.Command
