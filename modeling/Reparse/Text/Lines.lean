/-!
Lines of a text. A line feed ends a line and belongs to none; a carriage return right before it
goes with it, and any other carriage return is an ordinary character. A text that ends in a line
feed has no empty line after it. The law says that cutting at the end of a line cuts the list of
lines.
-/

namespace Reparse.Text

/-- The line whose characters are given newest first, without a closing carriage return. -/
def closeLine : List Char → List Char
  | '\r' :: cs => cs.reverse
  | cs => cs.reverse

/-- Reads on with `done` lines behind (newest first) and `open` characters of the current one. -/
def linesFrom (done : List (List Char)) (line : List Char) : List Char → List (List Char)
  | [] => if line.isEmpty then done.reverse else (line.reverse :: done).reverse
  | c :: cs =>
    if c = '\n' then linesFrom (closeLine line :: done) [] cs
    else linesFrom done (c :: line) cs

/-- The lines of a text. -/
def lines (cs : List Char) : List (List Char) :=
  linesFrom [] [] cs

@[simp]
theorem lines_nil : lines [] = [] := rfl

theorem linesFrom_eq (done : List (List Char)) (line cs : List Char) :
    linesFrom done line cs = done.reverse ++ linesFrom [] line cs := by
  induction cs generalizing done line with
  | nil => by_cases h : line.isEmpty <;> simp [linesFrom, h]
  | cons c cs ih =>
    by_cases h : c = '\n'
    · simp only [linesFrom, h, if_true]
      rw [ih, ih [closeLine line]]
      simp
    · simp only [linesFrom, h, if_false]
      exact ih done (c :: line)

theorem linesFrom_append_newline (done : List (List Char)) (line a b : List Char) :
    linesFrom done line (a ++ '\n' :: b) = linesFrom done line (a ++ ['\n']) ++ lines b := by
  induction a generalizing done line with
  | nil =>
    simp only [List.nil_append, linesFrom, if_true, List.isEmpty_nil]
    rw [linesFrom_eq, lines]
  | cons c a ih =>
    by_cases h : c = '\n' <;> simp only [List.cons_append, linesFrom, h, if_true, if_false] <;>
      exact ih _ _

/-- Lines of a text that is cut right after a line feed. -/
theorem lines_append_newline (a b : List Char) :
    lines (a ++ '\n' :: b) = lines (a ++ ['\n']) ++ lines b :=
  linesFrom_append_newline [] [] a b

end Reparse.Text
