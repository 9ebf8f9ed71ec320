import AdviceMigration.Source.Print.Tree

/-!
# Printing compilation units
-/

namespace AdviceMigration.Source

open AdviceMigration.Text

def ImportDecl.doc (decl : ImportDecl) : Doc :=
  txt ("import " ++ (if decl.isStatic then "static " else "") ++ decl.path ++
    (if decl.isWildcard then ".*" else "") ++ ";") ++ lineBreak

/-- An import declaration with the empty line and the comments in front of it. -/
def ImportDecl.docAfter (blankLineBefore : Bool) (style : Style) (decl : ImportDecl) : Doc :=
  (if blankLineBefore then [.blankLine] else []) ++ Comment.listDoc decl.comments style ++ decl.doc

/-- Package and import declarations from the tree. An empty line always follows the package. The comments in front of the first declaration are left out. -/
def headerDoc (package : Option PackageDecl) (imports : List ImportDecl) (style : Style) : Doc :=
  match package, imports with
  | none, [] => []
  | none, first :: rest =>
    first.doc ++ rest.flatMap fun decl => decl.docAfter decl.blankLineBefore style
  | some package, [] => txt ("package " ++ package.name ++ ";") ++ lineBreak
  | some package, first :: rest =>
    txt ("package " ++ package.name ++ ";") ++ lineBreak ++ first.docAfter true style ++
      rest.flatMap fun decl => decl.docAfter decl.blankLineBefore style

namespace CompilationUnit

def headerComments (package : Option PackageDecl) (imports : List ImportDecl) : List Comment :=
  match package, imports with
  | some package, _ => package.comments
  | none, first :: _ => first.comments
  | none, [] => []

def frontDoc (unit : CompilationUnit) (style : Style) : Doc :=
  if unit.package.isSome || !unit.imports.isEmpty then
    let comments := headerComments unit.package unit.imports
    let own := headerDoc unit.package unit.imports
    (match Trivia.doc? unit.leading comments false style with
      | some doc => doc
      | none => Comment.listDoc comments style) ++
    match unit.header with
    | none => own style
    | some captured =>
      if style.options.preserve && canonicalText own == captured.canonical then
        (if captured.startsLine then [] else style.indent) ++ txt captured.text ++ lineBreak
      else own style
  else []

/-- A type declaration of the unit, with what stands in front of it. An empty line sets it off where no captured lines can be used. -/
def typeDoc (style : Style) (decl : TypeDecl) : Doc :=
  (match Trivia.doc? decl.layout.leading decl.layout.comments decl.layout.blankLineBefore style with
    | some doc => doc
    | none => .blankLine :: Comment.listDoc decl.layout.comments style) ++
  reuse decl.layout.verbatim decl.ownDoc style ++ lineBreak

def endDoc (unit : CompilationUnit) (style : Style) : Doc :=
  match Trivia.doc? unit.closing unit.endComments false style with
  | some doc => doc
  | none =>
    match unit.endComments with
    | [] => []
    | comments => .blankLine :: Comment.listDoc comments style

def doc (unit : CompilationUnit) (style : Style) : Doc :=
  unit.frontDoc style ++ unit.types.flatMap (typeDoc style) ++ unit.endDoc style

/-- The text of a unit, in its own line break style. -/
def print (unit : CompilationUnit) (options : PrintOptions := {}) : String :=
  unit.newline.expand (render (unit.doc (.ofOptions options)))

/-- The text of a unit printed from the tree alone. Two units of one structure print alike, however they were written. -/
def printCanonical (unit : CompilationUnit) : String :=
  unit.print { preserve := false }

end CompilationUnit

end AdviceMigration.Source
