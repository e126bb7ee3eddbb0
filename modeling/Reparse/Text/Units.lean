import Reparse.Total

/-!
Width of a text in UTF-16 code units, the unit in which an editor counts columns: a character beyond
the basic plane takes two units and any other takes one.
-/

namespace Reparse.Text

/-- The UTF-16 code units of a character. -/
def units16 (c : Char) : Nat :=
  if c.toNat < 0x10000 then 1 else 2

/-- The UTF-16 code units of a text. -/
def width16 (cs : List Char) : Nat :=
  total (cs.map units16)

@[simp]
theorem width16_nil : width16 [] = 0 := rfl

@[simp]
theorem width16_cons (c : Char) (cs : List Char) : width16 (c :: cs) = units16 c + width16 cs := by
  simp [width16]

theorem units16_pos (c : Char) : 0 < units16 c := by
  unfold units16
  split <;> omega

@[simp]
theorem width16_append (a b : List Char) : width16 (a ++ b) = width16 a + width16 b := by
  simp [width16]

end Reparse.Text
