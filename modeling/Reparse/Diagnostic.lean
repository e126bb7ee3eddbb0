import Reparse.Position

/-!
What a parse has to report about a stretch of text. Severities are the numbers of the editor
protocol, so a number without a name of its own is a severity too and is passed on as it is.
-/

namespace Reparse

/-- How grave a report is. -/
structure Severity where
  code : Int
deriving DecidableEq, Repr

namespace Severity

def error : Severity := ⟨1⟩
def warning : Severity := ⟨2⟩
def information : Severity := ⟨3⟩
def hint : Severity := ⟨4⟩

/-- The range of the numbers that can stand for a severity: those of 32 bits. -/
def inRange (n : Int) : Bool :=
  -2147483648 ≤ n && n ≤ 2147483647

end Severity

/-- Which reader a report comes from. -/
inductive Diagnostic.Source where
  | python
  | taskComment
deriving DecidableEq, Repr

/-- The name under which a source signs its reports. -/
def Diagnostic.Source.label : Diagnostic.Source → String
  | .python => "Python"
  | .taskComment => "Task comment"

/-- One report. -/
structure Diagnostic where
  range : Range
  severity : Severity
  source : Diagnostic.Source
  message : String
deriving DecidableEq, Repr

end Reparse
