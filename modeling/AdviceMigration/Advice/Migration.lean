import AdviceMigration.Advice.Plan
import AdviceMigration.Source.Parse.Unit
import AdviceMigration.Source.Print.Unit

/-!
# Migrating compilation units

Every advice class of a unit is migrated, nested classes first. Either all of them are or, on an error, none is.
-/

namespace AdviceMigration.Advice

open AdviceMigration.Source AdviceMigration.Scope

/-- What a migration changed: the qualified names of the changed classes, innermost first, and the added imports. -/
structure MigrationReport where
  classes : List String
  imports : List String
  deriving DecidableEq, Repr, Inhabited

def MigrationReport.isChanged (report : MigrationReport) : Bool :=
  !report.classes.isEmpty || !report.imports.isEmpty

/-- Migrates a class itself, given the scope inside its body. -/
def migrateClass (scope : TypeScope) (decl : TypeDecl) : Migrating TypeDecl := do
  match ← liftM (Plan.create decl scope) with
  | none => return decl
  | some plan =>
    match ← plan.transform? decl with
    | none => return decl
    | some changed =>
      let qualified := scope.enclosingType?.getD decl.name
      modify fun session => { session with classes := session.classes ++ [qualified] }
      return changed

mutual
/-- Migrates the types nested in a type, then the type itself. -/
def migrateType (outer : TypeScope) : TypeDecl → Migrating TypeDecl
  | ⟨id, layout, annotations, modifiers, kind, name, typeParams, superTypes, interfaces, constants,
      members, endComments, closing⟩ => do
    let build := fun members => TypeDecl.mk id layout annotations modifiers kind name typeParams
      superTypes interfaces constants members endComments closing
    let scope := outer.nested (build members)
    migrateClass scope (build (← migrateMembers scope members))

def migrateMembers (scope : TypeScope) : List Member → Migrating (List Member)
  | [] => pure []
  | .type decl :: rest => do
    let decl ← migrateType scope decl
    return .type decl :: (← migrateMembers scope rest)
  | .field decl :: rest => do
    return .field decl :: (← migrateMembers scope rest)
  | .method decl :: rest => do
    return .method decl :: (← migrateMembers scope rest)
  | .initializer decl :: rest => do
    return .initializer decl :: (← migrateMembers scope rest)
end

/-- Adds imports that a unit does not have yet, and lists them. -/
def addImports : CompilationUnit → List String → CompilationUnit × List String
  | unit, [] => (unit, [])
  | unit, path :: rest =>
    match unit.addImport? path with
    | none => addImports unit rest
    | some extended =>
      let (unit, added) := addImports extended rest
      (unit, path :: added)

def migrateTypes (scope : TypeScope) : List TypeDecl → Migrating (List TypeDecl)
  | [] => pure []
  | decl :: rest => do
    let decl ← migrateType scope decl
    return decl :: (← migrateTypes scope rest)

/-- A migrated unit, what was changed in it, and the next node identity. -/
structure UnitMigration where
  unit : CompilationUnit
  report : MigrationReport
  nextId : NodeId

/-- Migrates every advice class of a unit whose node identities are all below `nextId`. -/
def migrateUnit (unit : CompilationUnit) (nextId : NodeId) : Except MigrateError UnitMigration := do
  let scope := TypeScope.ofUnit unit Framework.index
  let (types, session) ← (migrateTypes scope unit.types).run ⟨nextId, [], []⟩
  let (changed, added) := addImports { unit with types := types } session.imports
  let report : MigrationReport := ⟨session.classes, added⟩
  return ⟨if report.isChanged then changed else unit, report, session.nextId⟩

def byteOrderMark : Char := '\uFEFF'

structure SourceMigration where
  text : String
  report : MigrationReport
  deriving DecidableEq, Repr, Inhabited

/-- A text without its byte order mark, and the mark. -/
def splitMark (text : String) : String × String :=
  match text.toList with
  | c :: rest => if c == byteOrderMark then (String.singleton c, String.ofList rest) else ("", text)
  | [] => ("", text)

/-- Migrates a source text. It is answered as it is when nothing had to change; a byte order mark is kept. -/
def migrateSource (text : String) (options : PrintOptions) : Except MigrateError SourceMigration :=
  let (mark, source) := splitMark text
  match parseUnit source with
  | .error failure => .error (.unreadable failure)
  | .ok (unit, nextId) =>
    match migrateUnit unit nextId with
    | .error error => .error error
    | .ok migration =>
      if migration.report.isChanged then
        .ok ⟨mark ++ migration.unit.print options, migration.report⟩
      else .ok ⟨text, migration.report⟩

end AdviceMigration.Advice
