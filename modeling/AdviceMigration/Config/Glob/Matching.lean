import AdviceMigration.Config.Glob.Kind

/-!
# Matching paths

A pattern is matched by keeping the places of the path that its parts can lead up to. There is a place before every byte and one at the end. The pattern matches if all of its parts together lead from the first place to the last, and the work is proportional to parts times bytes however many ways there are.
-/

namespace AdviceMigration.Config

/-- For each place of a path, whether it can be reached. -/
abbrev Places := List Bool

namespace Places

def first (bytes : List UInt8) : Places := true :: bytes.map fun _ => false

def afterByte (test : UInt8 → Bool) (bytes : List UInt8) (places : Places) : Places :=
  false :: List.zipWith (fun place byte => place && test byte) places bytes

def afterExactly (expected bytes : List UInt8) (places : Places) : Places :=
  expected.foldl (fun places byte => afterByte (· == byte) bytes places) places

def afterSeparator (bytes : List UInt8) (places : Places) : Places :=
  afterByte (· == separatorByte) bytes places

/-- All places from the first that can be reached. -/
def onward (reached : Bool) : Places → Places
  | [] => []
  | place :: rest => (reached || place) :: onward (reached || place) rest

/-- The places behind nothing, or behind any bytes up to a separator. -/
def afterDirs (bytes : List UInt8) (places : Places) : Places :=
  List.zipWith (· || ·) places (afterSeparator bytes (onward false places))

end Places

namespace GlobPart

mutual
def advance (bytes : List UInt8) : GlobPart → Places → Places
  | .literal c, places => Places.afterExactly (String.utf8EncodeChar c) bytes places
  | .anyByte, places => Places.afterByte (fun _ => true) bytes places
  | .anyBytes, places => Places.onward false places
  | .leadingDirs, places => Places.afterDirs bytes places
  | .allBelow, places => Places.onward false (Places.afterSeparator bytes places)
  | .innerDirs, places => Places.afterDirs bytes (Places.afterSeparator bytes places)
  | .oneOf negated ranges, places =>
    Places.afterByte (fun byte => inByteClass ranges byte != negated) bytes places
  | .choice options, places =>
    if areOptionsVacuous options then places else advanceAny bytes options places

def advanceAll (bytes : List UInt8) : List GlobPart → Places → Places
  | [], places => places
  | part :: rest, places => advanceAll bytes rest (advance bytes part places)

/-- The places behind one of several options; those with nothing in them do not count. -/
def advanceAny (bytes : List UInt8) : List (List GlobPart) → Places → Places
  | [], places => places.map fun _ => false
  | option :: rest, places =>
    if areVacuous option then advanceAny bytes rest places
    else List.zipWith (· || ·) (advanceAll bytes option places) (advanceAny bytes rest places)
end

/-- Whether parts lead from the start of some bytes to their end. -/
def matchAll (parts : List GlobPart) (bytes : List UInt8) : Bool :=
  (advanceAll bytes parts (Places.first bytes)).getLast?.getD false

end GlobPart

/-- Whether the last component of a path can name a file; `..` does not. -/
def hasFileName (path : String) : Bool :=
  path.toList.reverse.takeWhile (· != '/') != ['.', '.']

/-- Whether a pattern matches a path. `**` alone matches every path. -/
def Glob.matches (glob : Glob) (path : String) : Bool :=
  match glob.parts with
  | [.leadingDirs] => true
  | parts =>
    (hasFileName path || !glob.kind.needsFileName) && GlobPart.matchAll parts (bytesOf path)

end AdviceMigration.Config
