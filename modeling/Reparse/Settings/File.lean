import Reparse.Json.Reader
import Reparse.Settings
import Reparse.Text.Utf8

/-!
Settings in a file. The file is strict JSON: an object of fields, of which each may be missing and
none may be repeated, or an array of the fields in their order, of which the last ones may be
missing. Fields of other names are skipped. The keywords are sanitized, and of the severities
given to one keyword the last counts.
-/

namespace Reparse.Settings

/-- Reads a severity. -/
def severity? : Json → Option Severity
  | .integer n => if Severity.inRange n then some ⟨n⟩ else none
  | _ => none

/-- Reads the severity of mixed indentation, which may be null. -/
def indentation? : Json → Option (Option Severity)
  | .null => some none
  | v => (severity? v).map some

/-- Reads one keyword with its severity. -/
def keyword? : Option String × Json → Option (String × Severity)
  | (some key, v) => (severity? v).map (key, ·)
  | (none, _) => none

/-- Reads a table of keywords. -/
def keywords? : Json → Option Keywords
  | .object members => (members.mapM keyword?).map fun es => (Keywords.ofList es).sanitize
  | _ => none

/-- Reads a truth value. -/
def bool? : Json → Option Bool
  | .bool b => some b
  | _ => none

/-- Reads a version of the language. -/
def version? : Json → Option LanguageVersion
  | .string (some s) => LanguageVersion.parse? s
  | _ => none

/-- Reads what may be missing. -/
def orStandard {α : Type} (read : Json → Option α) (standard : α) : Option Json → Option α
  | none => some standard
  | some v => read v

/-- The settings, from what has been found for each field. -/
def ofFields? (indentation taskComments bindNames version : Option Json) : Option Settings := do
  return {
    indentation := ← orStandard indentation? standard.indentation indentation
    taskComments := ← orStandard keywords? standard.taskComments taskComments
    bindNames := ← orStandard bool? standard.bindNames bindNames
    version := ← orStandard version? standard.version version }

/-- The value of a member, if there is one. A key must not stand twice. -/
def member? (members : List (Option String × Json)) (key : String) : Option (Option Json) :=
  match members.filter (·.1 == some key) with
  | [] => some none
  | [m] => some (some m.2)
  | _ => none

/-- Reads settings. -/
def ofJson? : Json → Option Settings
  | .object members => do
    guard (members.all (·.1.isSome))
    ofFields? (← member? members "inconsistent_indentation") (← member? members "task_comments")
      (← member? members "bind_references") (← member? members "language_version")
  | .array items => do
    guard (items.length ≤ 4)
    ofFields? items[0]? items[1]? items[2]? items[3]?
  | _ => none

/-- Reads the settings that a file holds. The file has to be UTF-8. -/
def parse (content : ByteArray) : Except Failure Settings :=
  match Text.Utf8.decode? content.toList with
  | none => .error (.io ⟨.invalidData, "stream did not contain valid UTF-8"⟩)
  | some cs =>
    match (Json.parse? cs).bind ofJson? with
    | none => .error (.json "no valid configuration")
    | some settings => .ok settings

end Reparse.Settings
