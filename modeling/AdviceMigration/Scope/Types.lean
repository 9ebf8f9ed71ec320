import AdviceMigration.Source.Node
import AdviceMigration.Text.Blank

/-!
# Type names

What a type name stands for at some point of a compilation unit. A simple name is looked for among the member types and names of the enclosing types, from the innermost out, then among the types of the unit, the single imports, the package, and last the imports on demand. The last three need to know which types exist; that knowledge is a predicate the scope carries.
-/

namespace AdviceMigration.Scope

open AdviceMigration.Source

/-- Whether a type with the given qualified name is known to exist. -/
abbrev TypeIndex := String → Bool

/-- An import of one type: the simple name it makes visible and its path. -/
structure SingleImport where
  imported : String
  path : String
  deriving DecidableEq, Repr, Inhabited

/-- The part of a dotted name after its last dot. -/
def lastSegment (path : String) : String :=
  String.ofList (path.toList.reverse.takeWhile (· != '.')).reverse

structure Imports where
  single : List SingleImport
  onDemand : List String
  staticSingle : List SingleImport
  staticOnDemand : List String
  deriving DecidableEq, Repr, Inhabited

namespace Imports

def ofForm (decls : List ImportDecl) (isStatic isWildcard : Bool) : List String :=
  (decls.filter fun decl =>
    decl.isStatic == isStatic && decl.isWildcard == isWildcard && !Text.allBlank decl.path).map
      (·.path)

def singleOf (path : String) : SingleImport := ⟨lastSegment path, path⟩

def ofDecls (decls : List ImportDecl) : Imports where
  single := (ofForm decls false false).map singleOf
  onDemand := ofForm decls false true
  staticSingle := (ofForm decls true false).map singleOf
  staticOnDemand := ofForm decls true true

end Imports

/-- A type whose body encloses the current point. -/
structure EnclosingType where
  qualified : String
  name : String
  memberTypes : List String
  deriving DecidableEq, Repr, Inhabited

/-- The type names visible at some point of a unit. -/
structure TypeScope where
  package : Option String
  imports : Imports
  topLevel : List String
  /-- Enclosing types, innermost first. -/
  enclosing : List EnclosingType
  index : TypeIndex

namespace TypeScope

def ofUnit (unit : CompilationUnit) (index : TypeIndex) : TypeScope where
  package := unit.package.map (·.name)
  imports := .ofDecls unit.imports
  topLevel := unit.types.map (·.name)
  enclosing := []
  index := index

def enclosingType? (scope : TypeScope) : Option String :=
  scope.enclosing.head?.map (·.qualified)

def inPackage (scope : TypeScope) (name : String) : String :=
  match scope.package with
  | some package => package ++ "." ++ name
  | none => name

def qualify (scope : TypeScope) (name : String) : String :=
  match scope.enclosing with
  | outer :: _ => outer.qualified ++ "." ++ name
  | [] => scope.inPackage name

def nested (scope : TypeScope) (decl : TypeDecl) : TypeScope :=
  { scope with
    enclosing :=
      ⟨scope.qualify decl.name, decl.name, decl.memberTypes.map (·.name)⟩ :: scope.enclosing }

/-- A simple name among enclosing types, from the innermost out: a member type of each, then the type itself. -/
def resolveEnclosing? (name : String) : List EnclosingType → Option String
  | [] => none
  | outer :: rest =>
    if outer.memberTypes.contains name then some (outer.qualified ++ "." ++ name)
    else if outer.name == name then some outer.qualified
    else resolveEnclosing? name rest

/-- A simple name among the members of packages and types that are imported on demand. -/
def resolveOnDemand? (index : TypeIndex) (name : String) (sources : List String) : Option String :=
  (sources.map fun source => source ++ "." ++ name).find? index

/-- A simple name among what the package and the imports on demand hold. The package `java.lang` is always imported. -/
def resolveKnown? (scope : TypeScope) (name : String) : Option String :=
  resolveOnDemand? scope.index name
    (scope.package.toList ++ scope.imports.onDemand ++ scope.imports.staticOnDemand ++
      ["java.lang"])

def resolveSimple? (scope : TypeScope) (name : String) : Option String :=
  match resolveEnclosing? name scope.enclosing with
  | some qualified => some qualified
  | none =>
    if scope.topLevel.contains name then some (scope.inPackage name)
    else
      match scope.imports.single.find? fun i => i.imported == name with
      | some found => some found.path
      | none =>
        match scope.imports.staticSingle.find? fun i => i.imported == name && scope.index i.path with
        | some found => some found.path
        | none => scope.resolveKnown? name

/-- Whether a name starts with a lower-case ASCII letter, as packages do. -/
def looksLikePackage (name : String) : Bool :=
  match name.toList with
  | c :: _ => c.isLower
  | [] => false

/-- What a name as written stands for. A dotted name goes on from what its first segment stands for; one that starts like a package stands for itself. -/
def resolve? (scope : TypeScope) (written : String) : Option String :=
  let head := String.ofList (written.toList.takeWhile (· != '.'))
  let rest := String.ofList (written.toList.dropWhile (· != '.'))
  match scope.resolveSimple? head with
  | some qualified => some (qualified ++ rest)
  | none => if looksLikePackage head then some written else none

end TypeScope

end AdviceMigration.Scope
