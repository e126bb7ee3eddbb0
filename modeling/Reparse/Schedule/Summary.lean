import Reparse.Schedule.Workspace
import Reparse.Text.Quoted

/-!
Summaries of documents, settings and workspaces in one line, for logs.
-/

namespace Reparse

/-- A severity by its name, or by its number if it has none. -/
def Severity.summary (s : Severity) : String :=
  if s = error then "Error"
  else if s = warning then "Warning"
  else if s = information then "Information"
  else if s = hint then "Hint"
  else s!"DiagnosticSeverity({String.ofList (Text.signedDigits s.code)})"

/-- What may be missing. -/
def optionSummary {α : Type} (f : α → String) : Option α → String
  | none => "None"
  | some a => s!"Some({f a})"

/-- The kind, the number and the URI of a document. -/
def Document.summary (d : Document) : String :=
  let kind := if d.isProject then "Project" else "External"
  s!"DocumentRef \x7b kind: {Text.quote kind}, id: doc#{d.id}, uri: "
    ++ s!"{optionSummary Text.quote d.uri} \x7d"

/-- The keywords and their severities. -/
def Keywords.summary (k : Keywords) : String :=
  let entries := k.entries.map fun e => s!"{Text.quote e.1}: {e.2.summary}"
  "\x7b" ++ String.intercalate ", " entries ++ "\x7d"

/-- All settings. -/
def Settings.summary (s : Settings) : String :=
  s!"ParseConfig \x7b inconsistent_indentation: {optionSummary Severity.summary s.indentation}, "
    ++ s!"task_comments: {s.taskComments.summary}, bind_references: {s.bindNames}, "
    ++ s!"language_version: LanguageVersion \x7b major: {s.version.major}, "
    ++ s!"minor: {s.version.minor} \x7d \x7d"

/-- The count of unfinished requests, the number of documents, and the settings. -/
def Workspace.summary (w : Workspace) : String :=
  s!"ParseQueue \x7b in_flight: {w.count}, tracked_documents: {w.tracked}, "
    ++ s!"config: {w.settings.summary}, .. \x7d"

end Reparse
