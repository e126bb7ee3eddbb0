import Reparse.Bracket
import Reparse.Position
import Reparse.Statement.Classify

/-!
Logical lines: the code of one or more physical lines that belong together. The text has no
comments and no string bodies, a blank stands for each end of a physical line inside it, and
semicolons outside brackets cut it into simple statements. A line whose last statement ends in a
colon is a header.
-/

namespace Reparse.Layout

/-- A finished logical line. -/
structure LogicalLine where
  range : Range
  indent : Nat
  text : List Char
deriving DecidableEq, Repr

/-- Cuts a text at semicolons from here on; `segment` is what has been read since the last cut and
`done` are the segments before it, both newest first. -/
def segmentsFrom (depth : Nat) (segment : List Char) (done : List (List Char)) :
    List Char → List (List Char)
  | [] => (segment.reverse :: done).reverse
  | c :: cs =>
    if c = ';' ∧ depth = 0 then segmentsFrom depth [] (segment.reverse :: done) cs
    else segmentsFrom (Bracket.depth depth c) (c :: segment) done cs

/-- The texts between the semicolons that stand outside brackets, without blanks at their ends. -/
def segments (text : List Char) : List (List Char) :=
  ((segmentsFrom 0 [] [] text).map Text.trim).filter fun s => !s.isEmpty

namespace LogicalLine

/-- The statements of the line, sorted. -/
def sorted (l : LogicalLine) (version : LanguageVersion) : List Statement.Sorted :=
  (segments l.text).map fun s => Statement.classify s version

/-- The statements of the line. Their names are listed only if that is asked for. -/
def statements (l : LogicalLine) (version : LanguageVersion) (bind : Bool) : List Statement :=
  (l.sorted version).map fun s =>
    ⟨s.kind, l.range, l.indent, if bind then s.bindings else [], 0⟩

/-- What is wrong with the statements of the line. -/
def faults (l : LogicalLine) (version : LanguageVersion) : List Fault :=
  (l.sorted version).filterMap Statement.Sorted.fault

/-- The line is a header: its last statement ends in a colon. -/
def isHeader (l : LogicalLine) : Bool :=
  (segments l.text).getLast?.any fun s => s.getLast? == some ':'

end LogicalLine

end Reparse.Layout
