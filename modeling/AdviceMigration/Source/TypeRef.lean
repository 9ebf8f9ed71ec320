import AdviceMigration.Source.Token

/-!
# Type references

A type as it is written: a primitive type, a dotted class type whose segments may carry type arguments, or an array of another type. `TypeRef.text` is the written form.
-/

namespace AdviceMigration.Source

mutual
inductive TypeRef where
  | void
  | primitive (type : PrimitiveType)
  | named (segments : List TypeSegment)
  | array (element : TypeRef)

/-- One segment of a dotted class type. Type arguments that are empty are the diamond. -/
inductive TypeSegment where
  | plain (name : String)
  | generic (name : String) (args : List TypeArg)

inductive TypeArg where
  | type (type : TypeRef)
  | wildcard
  | wildcardExtends (bound : TypeRef)
  | wildcardSuper (bound : TypeRef)
end

instance : Inhabited TypeRef := ⟨.void⟩

mutual
def TypeRef.text : TypeRef → String
  | .void => "void"
  | .primitive type => type.word
  | .named segments => TypeSegment.joined segments
  | .array element => element.text ++ "[]"

def TypeSegment.joined : List TypeSegment → String
  | [] => ""
  | [segment] => segment.text
  | segment :: rest => segment.text ++ "." ++ TypeSegment.joined rest

def TypeSegment.text : TypeSegment → String
  | .plain name => name
  | .generic name args => name ++ "<" ++ TypeArg.joined args ++ ">"

def TypeArg.joined : List TypeArg → String
  | [] => ""
  | [arg] => arg.text
  | arg :: rest => arg.text ++ ", " ++ TypeArg.joined rest

def TypeArg.text : TypeArg → String
  | .type type => type.text
  | .wildcard => "?"
  | .wildcardExtends bound => "? extends " ++ bound.text
  | .wildcardSuper bound => "? super " ++ bound.text
end

namespace TypeRef

/-- The class type with one simple name. -/
def simple (name : String) : TypeRef := .named [.plain name]

/-- A type with `n` more array dimensions. -/
def arrayOf (type : TypeRef) : (n : Nat) → TypeRef
  | 0 => type
  | n + 1 => .array (type.arrayOf n)

def isPrimitive : TypeRef → Bool
  | .primitive _ => true
  | _ => false

def isArray : TypeRef → Bool
  | .array _ => true
  | _ => false

end TypeRef

structure TypeParam where
  name : String
  bounds : List TypeRef

end AdviceMigration.Source
