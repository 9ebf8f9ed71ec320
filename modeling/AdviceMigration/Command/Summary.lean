import AdviceMigration.Text.Json

/-!
# Summaries

What a run reports about each file and in total, as text or as JSON.
-/

namespace AdviceMigration.Command

open AdviceMigration.Text

inductive FileStatus where
  | migrated
  | unchanged
  | failed
  deriving DecidableEq, Repr, Inhabited

def FileStatus.name : FileStatus → String
  | migrated => "migrated"
  | unchanged => "unchanged"
  | failed => "failed"

/-- What a run reports about a file, given by its path from the root of the walk. -/
structure FileReport where
  path : String
  status : FileStatus
  classes : List String
  error : Option String
  deriving DecidableEq, Repr, Inhabited

namespace FileReport

def unchanged (path : String) : FileReport := ⟨path, .unchanged, [], none⟩

def migrated (path : String) (classes : List String) : FileReport :=
  ⟨path, .migrated, classes, none⟩

def failed (path error : String) : FileReport := ⟨path, .failed, [], some error⟩

/-- The report as JSON. Classes and error are left out when there are none. -/
def json (report : FileReport) : JsonValue :=
  .object ([("path", .string report.path), ("status", .string report.status.name)] ++
    (if report.classes.isEmpty then []
      else [("migrated_classes", .array (report.classes.map .string))]) ++
    (match report.error with
      | some error => [("error", .string error)]
      | none => []))

/-- The two lines that head the difference between the old and the new file. -/
def diffHead (report : FileReport) : List String :=
  let name := String.ofList (report.path.toList.map fun c => if c == '\\' then '/' else c)
  ["--- a/" ++ name, "+++ b/" ++ name]

end FileReport

/-- The reports of a run, in the order of the walk. -/
abbrev Summary := List FileReport

namespace Summary

def withStatus (summary : Summary) (status : FileStatus) : Summary :=
  summary.filter fun report => report.status == status

def count (summary : Summary) (status : FileStatus) : Nat :=
  (summary.withStatus status).length

def totals (summary : Summary) : List (String × Nat) :=
  [("files_scanned", summary.length), ("migrated", summary.count .migrated),
    ("unchanged", summary.count .unchanged), ("failed", summary.count .failed)]

def lines (summary : Summary) : List String :=
  "summary:" :: summary.totals.map fun total => "  " ++ total.1 ++ ": " ++ toString total.2

def json (summary : Summary) : JsonValue :=
  .object ((summary.totals.map fun total => (total.1, .number total.2)) ++
    [("files", .array (summary.map FileReport.json))])

def errorLines (summary : Summary) : List String :=
  summary.filterMap fun report =>
    report.error.map fun error => "error: " ++ report.path ++ ": " ++ error

end Summary

end AdviceMigration.Command
