import AdviceMigration.Config.Glob

/-!
# Reading glob patterns

A pattern is read character by character. Square brackets enclose a class, in which `!` or `^` in the first place negates and a hyphen makes a range; braces enclose options, which may be nested and are divided by commas; a backslash takes the next character as it is.
-/

namespace AdviceMigration.Config

inductive GlobFault where
  | unclosedClass
  | reversedRange (low high : Char)
  | unopenedChoice
  | unclosedChoice
  | danglingEscape
  deriving DecidableEq, Repr, Inhabited

def GlobFault.message : GlobFault → String
  | unclosedClass => "unclosed character class; missing ']'"
  | reversedRange low high =>
    "invalid range; '" ++ String.singleton low ++ "' > '" ++ String.singleton high ++ "'"
  | unopenedChoice => "unopened alternate group; missing '\x7b' (maybe escape '\x7d' with '[\x7d]'?)"
  | unclosedChoice => "unclosed alternate group; missing '\x7d' (maybe escape '\x7b' with '[\x7b]'?)"
  | danglingEscape => "dangling '\\'"

structure ClassReader where
  negated : Bool
  /-- Ranges so far, last first. -/
  ranges : List (Char × Char)
  /-- Whether the bracket was the last character. -/
  atBracket : Bool
  /-- Whether no member has been read. -/
  isEmpty : Bool
  /-- Whether the last range waits for its upper end. -/
  inRange : Bool

namespace ClassReader

def start : ClassReader := ⟨false, [], true, true, false⟩

def add (reader : ClassReader) (c : Char) : ClassReader :=
  { reader with ranges := (c, c) :: reader.ranges, atBracket := false, isEmpty := false }

/-- Ends the last range at a character, which must not be below its start. -/
def close (reader : ClassReader) (c : Char) : Except GlobFault ClassReader :=
  match reader.ranges with
  | [] => .ok (reader.add c)
  | (low, _) :: rest =>
    if c < low then .error (.reversedRange low c)
    else .ok { reader with ranges := (low, c) :: rest, inRange := false }

/-- The finished class. A hyphen at its end stands for itself. -/
def part (reader : ClassReader) : GlobPart :=
  .oneOf reader.negated (if reader.inRange then ('-', '-') :: reader.ranges else reader.ranges).reverse

/-- Takes a character that does not end the class. A bracket or hyphen in the first place stands for itself. -/
def take (reader : ClassReader) (c : Char) : Except GlobFault ClassReader :=
  if reader.atBracket && (c == '!' || c == '^') then
    .ok { reader with negated := true, atBracket := false }
  else if reader.inRange then reader.close c
  else if c == '-' && !reader.isEmpty then .ok { reader with inRange := true }
  else .ok (reader.add c)

end ClassReader

/-- A group of options that has been opened: the parts in front of it and the finished options, both last first. -/
structure OpenChoice where
  before : List GlobPart
  options : List (List GlobPart)

structure GlobReader where
  /-- The character read last. -/
  previous : Option Char
  /-- Parts of the current option, last first. -/
  parts : List GlobPart
  /-- Open groups, innermost first. -/
  choices : List OpenChoice
  /-- The class the next character belongs to. -/
  classReader : Option ClassReader

namespace GlobReader

def start : GlobReader := ⟨none, [], [], none⟩

/-- Adds a part that ends in the given character. -/
def push (reader : GlobReader) (part : GlobPart) (c : Char) : GlobReader :=
  { reader with parts := part :: reader.parts, previous := some c }

def takeInClass (reader : GlobReader) (members : ClassReader) (c : Char) :
    Except GlobFault GlobReader :=
  if c == ']' && !members.isEmpty then
    .ok { reader.push members.part c with classReader := none }
  else
    match members.take c with
    | .ok members => .ok { reader with classReader := some members, previous := some c }
    | .error fault => .error fault

def openChoice (reader : GlobReader) : GlobReader :=
  { reader with
    previous := some '\x7b', parts := [], choices := ⟨reader.parts, []⟩ :: reader.choices }

def closeChoice (reader : GlobReader) : Except GlobFault GlobReader :=
  match reader.choices with
  | [] => .error .unopenedChoice
  | ⟨before, options⟩ :: rest =>
    .ok { reader with
      previous := some '\x7d'
      parts := .choice (reader.parts.reverse :: options).reverse :: before
      choices := rest }

/-- Takes a comma: it ends an option, and outside of groups it stands for itself. -/
def takeComma (reader : GlobReader) : GlobReader :=
  match reader.choices with
  | [] => reader.push (.literal ',') ','
  | ⟨before, options⟩ :: rest =>
    { reader with
      previous := some ','
      parts := []
      choices := ⟨before, reader.parts.reverse :: options⟩ :: rest }

/-- What `**` stands for. -/
inductive DoubleStar where
  /-- Two single stars. -/
  | plain
  /-- The start of an option; a separator after it belongs to it. -/
  | leading
  /-- The end of an option. -/
  | trailing
  /-- Between two separators, both of which belong to it. -/
  | inner

/-- Whether `**` starts a path component. -/
def startsComponent (reader : GlobReader) : Bool :=
  reader.previous == some '/' ||
    (!reader.choices.isEmpty && (reader.previous == some ',' || reader.previous == some '\x7b'))

def doubleStar (reader : GlobReader) (rest : List Char) : DoubleStar :=
  if reader.parts.isEmpty then
    match rest with
    | [] => .leading
    | c :: _ => if c == '/' then .leading else .plain
  else if reader.startsComponent then
    match rest with
    | [] => .trailing
    | c :: _ =>
      if c == '/' then .inner
      else if !reader.choices.isEmpty && (c == ',' || c == '\x7d') then .trailing
      else .plain
  else .plain

/-- Puts a part in place of the last one, unless that already stands for directories at the same end. -/
def replaceLast (reader : GlobReader) (part : GlobPart) (c : Char) : GlobReader :=
  match reader.parts with
  | .leadingDirs :: rest => { reader with parts := .leadingDirs :: rest, previous := some c }
  | .allBelow :: rest => { reader with parts := .allBelow :: rest, previous := some c }
  | _ :: rest => { reader with parts := part :: rest, previous := some c }
  | [] => reader.push part c

/-- Takes a star in front of the given characters. Answers how many of these belong to it. -/
def takeStar (reader : GlobReader) (rest : List Char) : GlobReader × Nat :=
  match rest with
  | '*' :: after =>
    match reader.doubleStar after with
    | .plain => ((reader.push .anyBytes '*').push .anyBytes '*', 1)
    | .leading => (reader.push .leadingDirs '/', 2)
    | .inner => (reader.replaceLast .innerDirs '/', 2)
    | .trailing => (reader.replaceLast .allBelow '*', 1)
  | _ => (reader.push .anyBytes '*', 0)

/-- Takes a character in front of the given ones. Answers how many of these belong to it. -/
def take (reader : GlobReader) (c : Char) (rest : List Char) : Except GlobFault (GlobReader × Nat) :=
  match reader.classReader with
  | some members => (reader.takeInClass members c).map (·, 0)
  | none =>
    if c == '*' then .ok (reader.takeStar rest)
    else if c == '?' then .ok (reader.push .anyByte c, 0)
    else if c == '[' then
      .ok ({ reader with classReader := some .start, previous := some c }, 0)
    else if c == '\x7b' then .ok (reader.openChoice, 0)
    else if c == '\x7d' then reader.closeChoice.map (·, 0)
    else if c == ',' then .ok (reader.takeComma, 0)
    else if c == '\\' then
      match rest with
      | [] => .error .danglingEscape
      | escaped :: _ => .ok (reader.push (.literal escaped) escaped, 1)
    else .ok (reader.push (.literal c) c, 0)

/-- Reads characters one after another; the first `used` have been read already. -/
def takeAll : (used : Nat) → GlobReader → List Char → Except GlobFault GlobReader
  | _, reader, [] => .ok reader
  | used + 1, reader, _ :: rest => takeAll used reader rest
  | 0, reader, c :: rest =>
    match reader.take c rest with
    | .ok (reader, used) => takeAll used reader rest
    | .error fault => .error fault

def finish (reader : GlobReader) : Except GlobFault Glob :=
  if reader.classReader.isSome then .error .unclosedClass
  else if !reader.choices.isEmpty then .error .unclosedChoice
  else .ok ⟨reader.parts.reverse⟩

end GlobReader

def Glob.read (pattern : String) : Except GlobFault Glob :=
  match GlobReader.takeAll 0 .start pattern.toList with
  | .ok reader => reader.finish
  | .error fault => .error fault

end AdviceMigration.Config
