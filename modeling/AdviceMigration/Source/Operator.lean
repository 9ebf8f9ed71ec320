/-!
# Operators

The operators of expressions with their spelling and binding strength.
-/

namespace AdviceMigration.Source

inductive UnaryOp where
  | plus | minus | not | bitNot | preInc | preDec | postInc | postDec
  deriving DecidableEq, Repr, Inhabited

namespace UnaryOp

def text : UnaryOp → String
  | plus => "+" | minus => "-" | not => "!" | bitNot => "~"
  | preInc | postInc => "++"
  | preDec | postDec => "--"

def isPostfix : UnaryOp → Bool
  | postInc | postDec => true
  | _ => false

def hasSideEffects : UnaryOp → Bool
  | preInc | preDec | postInc | postDec => true
  | _ => false

end UnaryOp

inductive BinaryOp where
  | or | and | bitOr | bitXor | bitAnd | eq | ne | lt | gt | le | ge | shl | shr | ushr | add | sub
  | mul | div | rem
  deriving DecidableEq, Repr, Inhabited

namespace BinaryOp

def text : BinaryOp → String
  | or => "||" | and => "&&" | bitOr => "|" | bitXor => "^" | bitAnd => "&" | eq => "=="
  | ne => "!=" | lt => "<" | gt => ">" | le => "<=" | ge => ">=" | shl => "<<" | shr => ">>"
  | ushr => ">>>" | add => "+" | sub => "-" | mul => "*" | div => "/" | rem => "%"

/-- Binding strength; a higher number binds tighter. -/
def precedence : BinaryOp → Nat
  | or => 1
  | and => 2
  | bitOr => 3
  | bitXor => 4
  | bitAnd => 5
  | eq | ne => 6
  | lt | gt | le | ge => 7
  | shl | shr | ushr => 8
  | add | sub => 9
  | mul | div | rem => 10

end BinaryOp

/-- Binding strength of a type test, that of the comparisons. -/
def instanceOfPrecedence : Nat := 7

inductive AssignOp where
  | assign | add | sub | mul | div | rem | bitAnd | bitOr | bitXor | shl | shr | ushr
  deriving DecidableEq, Repr, Inhabited

def AssignOp.text : AssignOp → String
  | assign => "=" | add => "+=" | sub => "-=" | mul => "*=" | div => "/=" | rem => "%="
  | bitAnd => "&=" | bitOr => "|=" | bitXor => "^=" | shl => "<<=" | shr => ">>=" | ushr => ">>>="

inductive Modifier where
  | «public» | «protected» | «private» | static | final | abstract | native | synchronized
  | transient | volatile | strictfp | default
  deriving DecidableEq, Repr, Inhabited

def Modifier.word : Modifier → String
  | .public => "public" | .protected => "protected" | .private => "private" | .static => "static"
  | .final => "final" | .abstract => "abstract" | .native => "native"
  | .synchronized => "synchronized" | .transient => "transient" | .volatile => "volatile"
  | .strictfp => "strictfp" | .default => "default"

end AdviceMigration.Source
