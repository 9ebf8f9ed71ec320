import AdviceMigration.Source.Parse.Grammar

/-!
# Reading annotations, modifiers and types

Annotations on the use of a type carry no meaning here and are dropped.
-/

namespace AdviceMigration.Source

namespace Grammar

def qualifiedName (message : String) : Parser String := do
  let first ← expectIdent message
  loop (fun name => do
    if (← atPunct .dot) && (← peek 1) == .ident then
      bump
      let word ← bumpText
      return .continue (name ++ "." ++ word)
    else return .done name) first

def elementPair (g : Grammar) : Parser ElementPair := do
  let name ← expectIdent "expected annotation element name"
  expectPunct .eq "expected `=` after annotation element name"
  return ⟨name, ← g.elementValue⟩

def annot (g : Grammar) : Parser Annot := do
  expectPunct .at "expected `@`"
  let name ← qualifiedName "expected annotation name"
  if ← eatPunct .lParen then
    if ← eatPunct .rParen then return .pairs name []
    else if (← atIdent) && (← peek 1) == .punct .eq then
      let pairs ← separatedBy .comma g.elementPair
      expectPunct .rParen "expected `)` to close annotation arguments"
      return .pairs name pairs
    else
      let value ← g.elementValue
      expectPunct .rParen "expected `)` to close annotation arguments"
      return .single name value
  else return .marker name

/-- Whether an annotation starts here, rather than the declaration of an annotation type. -/
def atAnnot : Parser Bool := do
  return (← atPunct .at) && (← peek 1) != .keyword .interfaceKw

/-- The modifier that a token stands for, given the kind of the token after it. -/
def modifierOf? (kind next : TokenKind) : Option Modifier :=
  match kind with
  | .keyword .publicKw => some .public
  | .keyword .protectedKw => some .protected
  | .keyword .privateKw => some .private
  | .keyword .staticKw => some .static
  | .keyword .finalKw => some .final
  | .keyword .abstractKw => some .abstract
  | .keyword .nativeKw => some .native
  | .keyword .synchronizedKw => if next == .punct .lParen then none else some .synchronized
  | .keyword .transientKw => some .transient
  | .keyword .volatileKw => some .volatile
  | .keyword .strictfpKw => some .strictfp
  | .keyword .defaultKw =>
    if next == .punct .colon || next == .punct .arrow then none else some .default
  | _ => none

/-- Annotations and modifiers, in any order. -/
def modifiers (g : Grammar) : Parser (List Annot × List Modifier) :=
  loop (fun (annots, modifiers) => do
    if ← atAnnot then
      let annot ← g.annot
      return .continue (annot :: annots, modifiers)
    else
      match modifierOf? (← kind) (← peek 1) with
      | some modifier =>
        bump
        return .continue (annots, modifier :: modifiers)
      | none => return .done (annots.reverse, modifiers.reverse)) ([], [])

/-- Type with as many array dimensions as empty pairs of brackets follow. -/
def brackets (type : TypeRef) : Parser TypeRef :=
  loop (fun type => do
    if ← atBrackets then
      bump
      bump
      return .continue (.array type)
    else return .done type) type

def typeArg (g : Grammar) : Parser TypeArg := do
  let _ ← manyWhile (atPunct .at) g.annot
  if ← eatPunct .question then
    if ← eatKeyword .extendsKw then return .wildcardExtends (← g.type)
    else if ← eatKeyword .superKw then return .wildcardSuper (← g.type)
    else return .wildcard
  else return .type (← g.type)

def typeArgs (g : Grammar) : Parser (List TypeArg) := do
  expectPunct .less "expected `<`"
  if ← eatPunct .greater then return []
  else
    let args ← separatedBy .comma g.typeArg
    expectPunct .greater "expected `>` to close type arguments"
    return args

def typeSegment (g : Grammar) : Parser TypeSegment := do
  let name ← expectIdent "expected type name"
  if ← atPunct .less then return .generic name (← g.typeArgs) else return .plain name

def classType (g : Grammar) : Parser TypeRef := do
  let segments ← loop (fun segments => do
    let segment ← g.typeSegment
    if (← atPunct .dot) && (← peek 1) == .ident then
      bump
      return .continue (segment :: segments)
    else return .done (segment :: segments).reverse) []
  return .named segments

/-- A type other than `void`. -/
def typeRef (g : Grammar) : Parser TypeRef := do
  let _ ← manyWhile atAnnot g.annot
  match (← kind).primitive? with
  | some primitive =>
    bump
    brackets (.primitive primitive)
  | none =>
    if ← atIdent then
      let type ← g.classType
      brackets type
    else complain "expected type"

def typeList (g : Grammar) : Parser (List TypeRef) :=
  separatedBy .comma g.typeRef

def typeParam (g : Grammar) : Parser TypeParam := do
  let _ ← manyWhile (atPunct .at) g.annot
  let name ← expectIdent "expected type parameter name"
  if ← eatKeyword .extendsKw then return ⟨name, ← separatedBy .amp g.typeRef⟩
  else return ⟨name, []⟩

/-- Declared type parameters in angle brackets, if there are any. -/
def typeParams (g : Grammar) : Parser (List TypeParam) := do
  if ← eatPunct .less then
    let params ← separatedBy .comma g.typeParam
    expectPunct .greater "expected `>` to close type parameters"
    return params
  else return []

end Grammar

end AdviceMigration.Source
