import Reparse.Json.Printer
import Reparse.Schedule.Request
import Reparse.Total

/-!
Reports of the command line: one line of JSON for each file, in the form in which editors exchange
reports. A file is in order if its request succeeded and nothing of the severity of an error was
reported.
-/

namespace Reparse.CommandLine

/-- The report on one file. -/
structure Report where
  path : String
  version : Option Int
  statements : Nat
  diagnostics : List Diagnostic
  error : Option String
deriving DecidableEq, Repr

namespace Report

/-- The report on the outcome of a request. -/
def ofOutcome (path : String) : Outcome → Report
  | .ok receipt =>
    { path
      version := receipt.version?
      statements := total (receipt.records.values.map fun r => r.outline.statements.length)
      diagnostics := receipt.diagnostics
      error := none }
  | .error failure => ⟨path, none, 0, [], some failure.message⟩

/-- The file is in order. -/
def isSuccess (r : Report) : Bool :=
  r.error.isNone && !r.diagnostics.any (·.severity == .error)

/-- A place. -/
def ofPosition (p : Position) : Json :=
  .ofMembers [("line", .integer p.line), ("character", .integer p.column)]

/-- A diagnostic. -/
def ofDiagnostic (d : Diagnostic) : Json :=
  .ofMembers
    [("range", .ofMembers [("start", ofPosition d.range.start), ("end", ofPosition d.range.stop)]),
      ("severity", .integer d.severity.code), ("source", .text d.source.label),
      ("message", .text d.message)]

/-- A member that is left out where there is nothing. -/
def optional (key : String) (v : Option Json) : List (String × Json) :=
  (v.map (key, ·)).toList

/-- The report as a JSON value. -/
def toJson (r : Report) : Json :=
  .ofMembers (("path", .text r.path) :: optional "version" (r.version.map .integer)
    ++ [("statements", .integer r.statements),
      ("diagnostics", .array (r.diagnostics.map ofDiagnostic))]
    ++ optional "error" (r.error.map .text))

/-- The report as a line. -/
def toLine (r : Report) : String :=
  r.toJson.toText

end Report

end Reparse.CommandLine
