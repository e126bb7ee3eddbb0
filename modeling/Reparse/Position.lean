/-!
Places in a text: lines and columns count from zero, columns in UTF-16 code units. A range runs
from its first place up to, and not including, its last.
-/

namespace Reparse

/-- A place in a text. -/
structure Position where
  line : Nat
  column : Nat
deriving DecidableEq, Repr

namespace Position

/-- The place some columns further on the same line. -/
def right (p : Position) (columns : Nat) : Position :=
  ⟨p.line, p.column + columns⟩

/-- Reading order: by line, and on one line by column. -/
def precedes (p q : Position) : Bool :=
  p.line < q.line || (p.line == q.line && p.column ≤ q.column)

theorem precedes_refl (p : Position) : p.precedes p := by
  simp [precedes]

theorem precedes_total (p q : Position) : p.precedes q || q.precedes p := by
  simp only [precedes, Bool.or_eq_true, Bool.and_eq_true, decide_eq_true_eq, beq_iff_eq]
  omega

theorem precedes_trans {p q r : Position} (h : p.precedes q) (h' : q.precedes r) :
    p.precedes r := by
  simp only [precedes, Bool.or_eq_true, Bool.and_eq_true, decide_eq_true_eq, beq_iff_eq] at *
  omega

end Position

/-- A stretch of text between two places. -/
structure Range where
  start : Position
  stop : Position
deriving DecidableEq, Repr

/-- The stretch of some columns that begins at a place. -/
def Range.wide (p : Position) (columns : Nat) : Range :=
  ⟨p, p.right columns⟩

end Reparse
