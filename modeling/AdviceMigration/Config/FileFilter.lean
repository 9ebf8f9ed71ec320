import AdviceMigration.Config.Glob.Expression
import AdviceMigration.Config.Glob.Matching
import AdviceMigration.Config.Glob.Reader

/-!
# File filters

Which files a run works on: those that match one of the included patterns and none of the excluded ones.
-/

namespace AdviceMigration.Config

/-! ### Refused patterns -/

/-- A pattern that is nested too deep. -/
inductive DeepGlob where
  /-- One that ends in an extension, as an expression. -/
  | endingInExtension (expression : String)
  /-- The one with this index among the patterns that look at whole paths. -/
  | general (index : Nat)
  deriving DecidableEq, Repr, Inhabited

def DeepGlob.message : DeepGlob → String
  | endingInExtension expression =>
    "error parsing glob '" ++ expression ++ "': error parsing pattern 0"
  | general index => "error parsing pattern " ++ toString index

/-- Why patterns are refused. -/
inductive BadGlob where
  /-- A pattern cannot be read. -/
  | faulty (pattern : String) (fault : GlobFault)
  /-- One of several patterns is nested too deep. -/
  | tooDeep (patterns : List String) (deep : DeepGlob)
  deriving DecidableEq, Repr, Inhabited

namespace BadGlob

/-- The pattern that is refused; where it is one of several, all of them. -/
def pattern : BadGlob → String
  | faulty pattern _ => pattern
  | tooDeep patterns _ => String.intercalate ", " patterns

def reason : BadGlob → String
  | faulty pattern fault => "error parsing glob '" ++ pattern ++ "': " ++ fault.message
  | tooDeep _ deep => deep.message

end BadGlob

/-! ### Reading -/

/-- Reads patterns up to the first that is faulty. -/
def parseGlobs : List String → Except BadGlob (List Glob)
  | [] => .ok []
  | pattern :: rest =>
    match Glob.read pattern with
    | .error fault => .error (.faulty pattern fault)
    | .ok glob =>
      match parseGlobs rest with
      | .error bad => .error bad
      | .ok globs => .ok (glob :: globs)

/-- The first pattern that is nested too deep. Those that end in an extension come before the others; patterns of other kinds have no groups. -/
def deepGlob? (globs : List Glob) : Option DeepGlob :=
  match globs.find? fun glob => glob.kind = .endingInExtension && glob.isTooDeep with
  | some glob => some (.endingInExtension glob.expression)
  | none =>
    ((globs.filter fun glob => glob.kind = .general).findIdx? Glob.isTooDeep).map .general

/-- Reads patterns. All of them must be readable, and then none may be nested too deep. -/
def readGlobs (patterns : List String) : Except BadGlob (List Glob) :=
  match parseGlobs patterns with
  | .error bad => .error bad
  | .ok globs =>
    match deepGlob? globs with
    | some deep => .error (.tooDeep patterns deep)
    | none => .ok globs

/-! ### Filters -/

structure FileFilter where
  included : List Glob
  excluded : List Glob

namespace FileFilter

/-- Reads the patterns of a filter, the included ones first. -/
def read (included excluded : List String) : Except BadGlob FileFilter :=
  match readGlobs included with
  | .error bad => .error bad
  | .ok included =>
    match readGlobs excluded with
    | .error bad => .error bad
    | .ok excluded => .ok ⟨included, excluded⟩

/-- Whether a filter lets a file pass, given its path from the root of the walk. -/
def accepts (filter : FileFilter) (path : String) : Bool :=
  (filter.included.any fun glob => glob.matches path) &&
    !(filter.excluded.any fun glob => glob.matches path)

end FileFilter

end AdviceMigration.Config
