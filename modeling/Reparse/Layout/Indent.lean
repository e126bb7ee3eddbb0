/-!
Indentation, measured twice. Once a tab reaches to the next multiple of eight, and once it counts
as a single column. Two lines whose indentations compare differently under the two measures mix
tabs and spaces in a way that has no agreed meaning. A form feed starts both measures again.
-/

namespace Reparse.Layout

/-- The two measures of an indentation. -/
structure Indent where
  column : Nat
  narrow : Nat
deriving DecidableEq, Repr

namespace Indent

/-- No indentation. -/
def ground : Indent := ⟨0, 0⟩

/-- The measures after one more character; `none` if it does not indent. -/
def extend? (w : Indent) (c : Char) : Option Indent :=
  if c = ' ' then some ⟨w.column + 1, w.narrow + 1⟩
  else if c = '\t' then some ⟨(w.column / 8 + 1) * 8, w.narrow + 1⟩
  else if c = '\x0c' then some ground
  else none

/-- Measures on from `w` after `n` indenting characters: the measures, the number of indenting
characters and the text behind them. -/
def measureFrom (w : Indent) (n : Nat) : List Char → Indent × Nat × List Char
  | [] => (w, n, [])
  | c :: cs =>
    match w.extend? c with
    | some w' => measureFrom w' (n + 1) cs
    | none => (w, n, c :: cs)

/-- The indentation of a line, the number of characters it takes, and the rest of the line. -/
def measure (line : List Char) : Indent × Nat × List Char :=
  measureFrom ground 0 line

end Indent

end Reparse.Layout
