import AdviceMigration.Config.Glob

/-!
# Kinds of glob patterns

What of a path decides whether it matches. A pattern that begins or ends in plain characters looks at a piece of the path first; the kind says at which. It matters for paths that end in `..`, which have no file name and so no extension either.
-/

namespace AdviceMigration.Config

/-- What of a path a pattern looks at. -/
inductive GlobKind where
  /-- `**/name`: the file name. -/
  | fileName
  /-- `a/b`: the whole path. -/
  | wholePath
  /-- `*.ext`: the extension. -/
  | extension
  /-- `a/*`: the start. -/
  | beginning
  /-- `*_b` or `**/a/b`: the end. -/
  | ending
  /-- Anything before an extension: the extension, and then all of it. -/
  | endingInExtension
  /-- All of it. -/
  | general
  deriving DecidableEq, Repr, Inhabited

namespace GlobKind

/-- Whether a path must have a file name to be looked at. -/
def needsFileName : GlobKind → Bool
  | fileName => true
  | extension => true
  | endingInExtension => true
  | wholePath => false
  | beginning => false
  | ending => false
  | general => false

end GlobKind

namespace GlobPart

/-- Whether parts are plain characters, at least one of them. -/
def arePlain (parts : List GlobPart) : Bool :=
  match chars? parts with
  | some cs => !cs.isEmpty
  | none => false

def afterDirs : List GlobPart → List GlobPart
  | .leadingDirs :: rest => rest
  | parts => parts

def afterStar : List GlobPart → List GlobPart
  | .anyBytes :: rest => rest
  | parts => parts

/-- Whether parts are any directories and a file name. -/
def areFileName : List GlobPart → Bool
  | .leadingDirs :: rest =>
    match chars? rest with
    | some cs => !cs.isEmpty && !cs.contains '/'
    | none => false
  | _ => false

/-- Whether parts are a star and an extension, with any directories in front or without. -/
def areExtension (parts : List GlobPart) : Bool :=
  match afterDirs parts with
  | .anyBytes :: rest =>
    match chars? rest with
    | some ('.' :: cs) => !cs.contains '.' && !cs.contains '/'
    | _ => false
  | _ => false

/-- Whether parts are plain characters in front of anything. -/
def areBeginning (parts : List GlobPart) : Bool :=
  match parts.getLast? with
  | some .anyBytes => arePlain parts.dropLast
  | some .allBelow => (chars? parts.dropLast).isSome
  | _ => false

/-- Whether parts are plain characters after anything. A separator alone does not count. -/
def areEnding (parts : List GlobPart) : Bool :=
  match parts with
  | .leadingDirs :: .literal _ :: rest => (chars? rest).isSome
  | _ =>
    match chars? (afterStar (afterDirs parts)) with
    | some cs => !cs.isEmpty && cs != ['/']
    | none => false

/-- Whether parts, given last first, end in a dot and plain characters of one path component. -/
def endInExtension : (reversed : List GlobPart) → Bool
  | .literal c :: rest => c != '/' && (c == '.' || endInExtension rest)
  | _ => false

end GlobPart

def Glob.kind (glob : Glob) : GlobKind :=
  if GlobPart.areFileName glob.parts then .fileName
  else if GlobPart.arePlain glob.parts then .wholePath
  else if GlobPart.areExtension glob.parts then .extension
  else if GlobPart.areBeginning glob.parts then .beginning
  else if GlobPart.areEnding glob.parts then .ending
  else if GlobPart.endInExtension glob.parts.reverse then .endingInExtension
  else .general

end AdviceMigration.Config
