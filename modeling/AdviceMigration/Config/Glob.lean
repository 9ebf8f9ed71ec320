/-!
# Glob patterns

Patterns that select files by path. A path is compared byte by byte; `*` and `?` match separators too, and `**` stands for any directories where it is a path component of its own.
-/

namespace AdviceMigration.Config

inductive GlobPart where
  | literal (c : Char)
  /-- `?`: one byte. -/
  | anyByte
  /-- `*`: any bytes. -/
  | anyBytes
  /-- `**/` at the start: nothing, or anything up to a separator. -/
  | leadingDirs
  /-- `/**` at the end: a separator and anything after it. -/
  | allBelow
  /-- `/**/` in between: a separator, or anything between two. -/
  | innerDirs
  /-- `[a-z]`: a byte of the given ranges, or any other. -/
  | oneOf (negated : Bool) (ranges : List (Char × Char))
  /-- `{a,b}`: one of several patterns. -/
  | choice (options : List (List GlobPart))

structure Glob where
  parts : List GlobPart

namespace GlobPart

mutual
/-- Whether a part matches nothing but the empty text because there is nothing in it. -/
def isVacuous : GlobPart → Bool
  | .choice options => areOptionsVacuous options
  | .literal _ => false
  | .anyByte => false
  | .anyBytes => false
  | .leadingDirs => false
  | .allBelow => false
  | .innerDirs => false
  | .oneOf _ _ => false

def areVacuous : List GlobPart → Bool
  | [] => true
  | part :: rest => part.isVacuous && areVacuous rest

def areOptionsVacuous : List (List GlobPart) → Bool
  | [] => true
  | option :: rest => areVacuous option && areOptionsVacuous rest
end

/-! ### Characters -/

def char? : GlobPart → Option Char
  | .literal c => some c
  | _ => none

/-- The characters that parts are, if they are nothing else. -/
def chars? : List GlobPart → Option (List Char)
  | [] => some []
  | part :: rest =>
    match part.char?, chars? rest with
    | some c, some cs => some (c :: cs)
    | _, _ => none

end GlobPart

/-! ### Bytes -/

def separatorByte : UInt8 := 47

def bytesOf (text : String) : List UInt8 := text.toList.flatMap String.utf8EncodeChar

/-- The bytes that a range of characters stands for. Of a character with several bytes each counts, and a range runs from the last byte of its first character to the first byte of its last one. -/
def rangeBytes (range : Char × Char) : List (UInt8 × UInt8) :=
  let low := String.utf8EncodeChar range.1
  let high := String.utf8EncodeChar range.2
  if range.1 = range.2 then low.map fun byte => (byte, byte)
  else
    match low.getLast?, high with
    | some first, last :: rest =>
      low.dropLast.map (fun byte => (byte, byte)) ++ (first, last) :: rest.map fun byte => (byte, byte)
    | _, _ => []

def classBytes (ranges : List (Char × Char)) : List (UInt8 × UInt8) := ranges.flatMap rangeBytes

def inByteClass (ranges : List (Char × Char)) (byte : UInt8) : Bool :=
  (classBytes ranges).any fun range => range.1 ≤ byte && byte ≤ range.2

end AdviceMigration.Config
