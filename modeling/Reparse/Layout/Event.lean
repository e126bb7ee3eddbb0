import Reparse.Diagnostic
import Reparse.Layout.LogicalLine
import Reparse.Options
import Reparse.TaskComment
import Reparse.Text.Units

/-!
What is met in a text from its beginning to its end: comments, faults of layout and logical lines.
The events do not depend on any option; the options decide what is made of them.
-/

namespace Reparse.Layout

/-- Something met in a text. -/
inductive Event where
  | comment (start : Position) (text : List Char)
  | fault (range : Range) (fault : Fault)
  | line (line : LogicalLine)
deriving DecidableEq, Repr

namespace Event

/-- The statements that an event brings. -/
def statements (version : LanguageVersion) (bind : Bool) : Event → List Statement
  | line l => l.statements version bind
  | _ => []

/-- The report of a fault. Mixed indentation has the severity that the options give it, and is not
reported if they give none. -/
def report (options : Options) (range : Range) (fault : Fault) : List Diagnostic :=
  let severity := if fault = .mixedIndent then options.indentation else some .error
  severity.toList.map fun s => ⟨range, s, .python, fault.message⟩

/-- The reports that an event brings. -/
def diagnostics (options : Options) (finder : TaskComment.Finder) : Event → List Diagnostic
  | comment start text =>
    (finder.find? text).toList.map fun t =>
      ⟨.wide start (Text.width16 text), t.severity, .taskComment, t.message⟩
  | fault range f => report options range f
  | line l => (l.faults options.version).flatMap (report options l.range)

end Event

end Reparse.Layout
