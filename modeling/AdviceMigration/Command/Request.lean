/-!
# Requests

What the arguments of the command line ask for. There are two commands: `migrate` shows or writes migrated files, `check` only tells which files still need migrating. Arguments are read from left to right, and the first one that cannot be used, or that asks for help, decides.
-/

namespace AdviceMigration.Command

/-- What to do with a file that needs migrating. -/
inductive Mode where
  /-- Show that it would change. -/
  | diff
  | write
  | check
  deriving DecidableEq, Repr, Inhabited

/-- A run: the directory to work on as it was written, what to do, whether the summary is JSON, and a settings file. -/
structure Request where
  root : String
  mode : Mode
  json : Bool
  config : Option String
  deriving DecidableEq, Repr, Inhabited

inductive Invocation where
  | run (request : Request)
  /-- Help or the version. -/
  | information
  | refused
  deriving DecidableEq, Repr, Inhabited

/-- The commands that work on a directory. -/
inductive Verb where
  | migrate
  | check
  deriving DecidableEq, Repr, Inhabited

/-- Arguments of a command read so far. -/
structure Draft where
  verb : Verb
  root : Option String := none
  write : Bool := false
  json : Bool := false
  config : Option String := none
  /-- Whether the next argument is the settings file. -/
  awaitsConfig : Bool := false

/-- Whether an argument is an option by its looks; a hyphen alone is not. -/
def looksLikeOption (arg : String) : Bool :=
  match arg.toList with
  | '-' :: _ :: _ => true
  | _ => false

/-- The name of a long option and the value after an equals sign. -/
def splitOption (arg : String) : String × Option String :=
  let name := arg.toList.takeWhile (· != '=')
  match arg.toList.drop name.length with
  | [] => (arg, none)
  | _ :: value => (String.ofList name, some (String.ofList value))

namespace Draft

/-- What the arguments ask for, now that they have ended. -/
def finish (draft : Draft) : Invocation :=
  match draft.root, draft.awaitsConfig with
  | none, _ => .refused
  | some _, true => .refused
  | some root, false =>
    let mode := match draft.verb with
      | .check => .check
      | .migrate => if draft.write then .write else .diff
    .run ⟨root, mode, draft.json, draft.config⟩

/-- Takes the directory; it must not be empty, and there is only one. -/
def setRoot? (draft : Draft) (arg : String) : Option Draft :=
  if arg = "" ∨ draft.root.isSome then none else some { draft with root := some arg }

/-- Takes the settings file; its name must not be empty, and there is only one. -/
def setConfig? (draft : Draft) (arg : String) : Option Draft :=
  if arg = "" ∨ draft.config.isSome then none
  else some { draft with config := some arg, awaitsConfig := false }

/-- Takes an option without a value, which can be given once. -/
def setFlag? (draft : Draft) (name : String) : Option Draft :=
  if name = "--json" then if draft.json then none else some { draft with json := true }
  else if name = "--write" then
    if draft.write || draft.verb == .check then none else some { draft with write := true }
  else none

/-- Reads the arguments after two hyphens: none of them is an option. -/
def readPlain (draft : Draft) : List String → Invocation
  | [] => draft.finish
  | arg :: rest =>
    match draft.setRoot? arg with
    | some draft => draft.readPlain rest
    | none => .refused

def takeLong (draft : Draft) (arg : String) : Except Invocation Draft :=
  match splitOption arg with
  | ("--help", none) => .error .information
  | ("--config", none) =>
    if draft.config.isSome then .error .refused else .ok { draft with awaitsConfig := true }
  | ("--config", some value) => (draft.setConfig? value).elim (.error .refused) .ok
  | (name, none) => (draft.setFlag? name).elim (.error .refused) .ok
  | (_, some _) => .error .refused

/-- Takes an argument. An error ends the reading. -/
def take (draft : Draft) (arg : String) : Except Invocation Draft :=
  if draft.awaitsConfig then
    if looksLikeOption arg then .error .refused
    else (draft.setConfig? arg).elim (.error .refused) .ok
  else if arg.startsWith "--" then draft.takeLong arg
  else if arg.startsWith "-h" then .error .information
  else if looksLikeOption arg then .error .refused
  else (draft.setRoot? arg).elim (.error .refused) .ok

def read (draft : Draft) : List String → Invocation
  | [] => draft.finish
  | arg :: rest =>
    if arg = "--" ∧ !draft.awaitsConfig then draft.readPlain rest
    else
      match draft.take arg with
      | .ok draft => draft.read rest
      | .error invocation => invocation

end Draft

/-- The commands that help can be asked about. -/
def helpTopics : List String := ["migrate", "check", "help"]

def Invocation.ofArguments : List String → Invocation
  | [] => .refused
  | "migrate" :: rest => Draft.read { verb := .migrate } rest
  | "check" :: rest => Draft.read { verb := .check } rest
  | "help" :: [] => .information
  | "help" :: topic :: rest =>
    if helpTopics.contains topic && rest.isEmpty then .information else .refused
  | arg :: _ =>
    if arg = "--help" ∨ arg = "--version" then .information
    else if arg.startsWith "-h" || arg.startsWith "-V" then .information
    else .refused

end AdviceMigration.Command
