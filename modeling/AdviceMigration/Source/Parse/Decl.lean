import AdviceMigration.Source.Parse.Expr
import AdviceMigration.Source.Print.Tree

/-!
# Reading declarations

A member keeps its text together with what it prints to, which is how a later print recognises that nothing in it has changed.
-/

namespace AdviceMigration.Source

def Layout.withText (layout : Layout) (verbatim : Verbatim) : Layout :=
  { layout with verbatim := some verbatim }

namespace Grammar

/-- Number of empty pairs of brackets, which are passed. -/
def bracketCount : Parser Nat :=
  loop (fun count => do
    if ← atBrackets then
      bump
      bump
      return .continue (count + 1)
    else return .done count) 0

/-- A declared variable after its name. At most 255 of its dimensions are kept. -/
def declarator (g : Grammar) (name : String) : Parser Declarator := do
  let dims := min (← bracketCount) 255
  let init ← if ← eatPunct .eq then pure (some (← g.initialValue)) else pure none
  return ⟨← freshId, name, dims, init⟩

/-- Declared variables after the name of the first one. -/
def declaratorsAfter (g : Grammar) (name message : String) : Parser (List Declarator) := do
  let first ← g.declarator name
  let rest ← manyWhile (eatPunct .comma) do
    let name ← expectIdent message
    g.declarator name
  return first :: rest

/-- A declaration of local variables after its annotations and modifiers. -/
def localVar (g : Grammar) (annots : List Annot) (modifiers : List Modifier) : Parser LocalVar := do
  let type ← g.typeRef
  let name ← expectIdent "expected variable name"
  let declarators ← g.declaratorsAfter name "expected variable name"
  return ⟨annots, modifiers, type, declarators⟩

def param (g : Grammar) : Parser Param := do
  let (annots, modifiers) ← g.modifiers
  let type ← g.typeRef
  let varargs ← eatPunct .ellipsis
  if ← atKeyword .thisKw then complain "receiver parameters are not supported"
  else
    let name ← expectIdent "expected parameter name"
    let type ← brackets type
    return ⟨← freshId, annots, modifiers, type, varargs, name⟩

def params (g : Grammar) : Parser (List Param) := do
  expectPunct .lParen "expected `(` to open the parameter list"
  let params ← if ← atPunct .rParen then pure [] else separatedBy .comma g.param
  expectPunct .rParen "expected `)` to close the parameter list"
  return params

def enumConstant (g : Grammar) : Parser EnumConstant := do
  let (comments, _) ← takeComments
  let (annots, _) ← g.modifiers
  let name ← expectIdent "expected enum constant"
  let args ← if ← atPunct .lParen then pure (some (← g.args)) else pure none
  let body ← if ← atPunct .lBrace then pure (some (← g.classBody)) else pure none
  return ⟨comments, annots, name, args, body⟩

/-- The constants of an enum up to the semicolon after them, or the closing brace. -/
def enumConstants (g : Grammar) : Parser (List EnumConstant) :=
  loop (fun constants => do
    if ← eatPunct .semicolon then return .done constants.reverse
    else if ← atPunct .rBrace then return .done constants.reverse
    else
      let constant ← g.enumConstant
      if ← eatPunct .comma then return .continue (constant :: constants)
      else if ← eatPunct .semicolon then return .done (constant :: constants).reverse
      else if ← atPunct .rBrace then return .done (constant :: constants).reverse
      else complain "expected `,`, `;` or `\x7d` after enum constant") []

def typeKind : Parser TypeKind := do
  match ← kind with
  | .keyword .classKw => return .class
  | .keyword .interfaceKw => return .interface
  | .keyword .enumKw => return .enum
  | .punct .at =>
    if (← peek 1) == .keyword .interfaceKw then
      complain "annotation type declarations are not supported"
    else complain "expected `class`, `interface` or `enum`"
  | _ =>
    if ← atWord "record" then complain "record declarations are not supported"
    else complain "expected `class`, `interface` or `enum`"

/-- A type declaration after its annotations and modifiers, of which the first token was `start`. -/
def typeDecl (g : Grammar) (layout : Layout) (annots : List Annot) (modifiers : List Modifier)
    (start : Nat) : Parser TypeDecl := do
  let kind ← typeKind
  bump
  let name ← expectIdent "expected type name"
  let typeParams ← g.typeParams
  let superTypes ← if ← eatKeyword .extendsKw then g.typeList else pure []
  let interfaces ← if ← eatKeyword .implementsKw then g.typeList else pure []
  if ← atWord "permits" then complain "sealed type hierarchies are not supported"
  else
    expectPunct .lBrace "expected `\x7b` to open the type body"
    let constants ← if kind == .enum then g.enumConstants else pure []
    let (members, comments, closing) ← g.members
    let id ← freshId
    let decl : TypeDecl :=
      ⟨id, layout, annots, modifiers, kind, name, typeParams, superTypes, interfaces, constants,
        members, comments, closing⟩
    let verbatim ← captureFrom start (canonicalText decl.ownDoc)
    return { decl with layout := layout.withText verbatim }

/-- A method after its name. -/
def method (g : Grammar) (layout : Layout) (annots : List Annot) (modifiers : List Modifier)
    (typeParams : List TypeParam) (returnType : Option TypeRef) (name : String) (start : Nat) :
    Parser Method := do
  let id ← freshId
  let params ← g.params
  let dims ← bracketCount
  let throws ← if ← eatKeyword .throwsKw then g.typeList else pure []
  if ← atKeyword .defaultKw then complain "annotation element defaults are not supported"
  else
    let body ← if ← eatPunct .semicolon then pure none else pure (some (← g.block))
    let decl : Method :=
      ⟨id, layout, annots, modifiers, typeParams, returnType.map (·.arrayOf dims), name, params,
        throws, body⟩
    let verbatim ← captureFrom start (canonicalText decl.ownDoc)
    return { decl with layout := layout.withText verbatim }

/-- A field declaration after the name of its first variable. -/
def fieldDecl (g : Grammar) (layout : Layout) (annots : List Annot) (modifiers : List Modifier)
    (type : TypeRef) (name : String) (start : Nat) : Parser FieldDecl := do
  let declarators ← g.declaratorsAfter name "expected field name"
  expectPunct .semicolon "expected `;` after field declaration"
  let trailing ← takeTrailing
  let decl : FieldDecl := ⟨layout, annots, modifiers, type, declarators, trailing⟩
  let verbatim ← captureFrom start (canonicalText decl.ownDoc)
  return { decl with layout := layout.withText verbatim }

def initializer (g : Grammar) (layout : Layout) (start : Nat) : Parser Initializer := do
  let isStatic ← eatKeyword .staticKw
  let body ← g.block
  let decl : Initializer := ⟨layout, isStatic, body⟩
  let verbatim ← captureFrom start (canonicalText decl.ownDoc)
  return { decl with layout := layout.withText verbatim }

/-- The type and name of a field or method; a constructor has a name only. -/
def memberName (g : Grammar) : Parser (Option TypeRef × String) := do
  if (← atIdent) && (← peek 1) == .punct .lParen then
    let name ← bumpText
    return (none, name)
  else
    let type ← if ← eatKeyword .voidKw then pure .void else g.typeRef
    let name ← expectIdent "expected member name"
    return (some type, name)

/-- Whether a type declaration starts here, supported or not. -/
def atTypeDecl : Parser Bool := do
  match ← kind with
  | .keyword .classKw | .keyword .interfaceKw | .keyword .enumKw | .punct .at => return true
  | _ => atWord "record"

def atInitializer : Parser Bool := do
  return (← atPunct .lBrace) || ((← atKeyword .staticKw) && (← peek 1) == .punct .lBrace)

/-- A member, or nothing for a stray semicolon. -/
def member (g : Grammar) : Parser (Option Member) := do
  let layout ← takeLayout
  if ← eatPunct .semicolon then return none
  else
    let start ← position
    if ← atInitializer then return some (.initializer (← g.initializer layout start))
    else
      let (annots, modifiers) ← g.modifiers
      if ← atTypeDecl then return some (.type (← g.typeDecl layout annots modifiers start))
      else
        let typeParams ← g.typeParams
        let (type, name) ← g.memberName
        if ← atPunct .lParen then
          return some (.method (← g.method layout annots modifiers typeParams type name start))
        else
          match type with
          | some type => return some (.field (← g.fieldDecl layout annots modifiers type name start))
          | none => complain "expected field or method declaration"

/-- The members of a class body up to its closing brace, which is passed, and what stands in front of the brace. -/
def memberList (g : Grammar) : Parser (List Member × List Comment × Option Trivia) := do
  let members ← loop (fun members => do
    if ← atPunct .rBrace then return .done members.reverse
    else if ← atKind .eof then complain "expected `\x7d` to close the type body"
    else
      match ← g.member with
      | some member => return .continue (member :: members)
      | none => return .continue members) []
  let (comments, closing) ← takeClosing
  bump
  return (members, comments, closing)

end Grammar

end AdviceMigration.Source
