/-!
Blanks: the characters with the Unicode property White_Space, which separate words and may surround
a name. Trimming takes blanks from the ends of a text and from nowhere else; the lemmas say what is
left, not how it is found.
-/

namespace Reparse.Text

/-- The characters with the property White_Space. -/
def isBlank (c : Char) : Bool :=
  (0x09 ≤ c.toNat && c.toNat ≤ 0x0D) || c.toNat == 0x20 || c.toNat == 0x85 || c.toNat == 0xA0
    || c.toNat == 0x1680 || (0x2000 ≤ c.toNat && c.toNat ≤ 0x200A) || c.toNat == 0x2028
    || c.toNat == 0x2029 || c.toNat == 0x202F || c.toNat == 0x205F || c.toNat == 0x3000

/-- The text from its first character that is not in the class on. -/
def stripStart (p : Char → Bool) (cs : List Char) : List Char :=
  cs.dropWhile p

/-- The text up to its last character that is not in the class. -/
def stripEnd (p : Char → Bool) (cs : List Char) : List Char :=
  (cs.reverse.dropWhile p).reverse

/-- The text without the blanks in front. -/
def trimStart (cs : List Char) : List Char :=
  stripStart isBlank cs

/-- The text without the blanks at the end. -/
def trimEnd (cs : List Char) : List Char :=
  stripEnd isBlank cs

/-- The text without the blanks at both ends. -/
def trim (cs : List Char) : List Char :=
  trimEnd (trimStart cs)

@[simp]
theorem trim_nil : trim [] = [] := rfl

theorem stripEnd_append_of {p : Char → Bool} {c : Char} (h : p c = true) (cs : List Char) :
    stripEnd p (cs ++ [c]) = stripEnd p cs := by
  simp [stripEnd, h]

theorem trim_append_of {c : Char} (h : isBlank c = true) (cs : List Char) :
    trim (cs ++ [c]) = trim cs := by
  simp only [trim, trimStart, trimEnd, stripStart, List.dropWhile_append]
  cases cs.dropWhile isBlank with
  | nil => simp [stripEnd, h]
  | cons d rest => exact stripEnd_append_of h (d :: rest)

end Reparse.Text
