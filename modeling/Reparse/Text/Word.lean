import Reparse.Text.Alphabetic
import Reparse.Text.Numeric

/-!
Word characters and names. A word is a run of letters, numbers and underscores; a name is a word
that does not begin with a number. Letters and numbers are those of Unicode, not of ASCII alone.
-/

namespace Reparse.Text

/-- The number lies in one of the ranges, ends included. -/
def inRanges (ranges : List (Nat × Nat)) (n : Nat) : Bool :=
  ranges.any fun r => r.1 ≤ n && n ≤ r.2

/-- The characters with the property Alphabetic. -/
def isAlphabetic (c : Char) : Bool :=
  if c.toNat < 0x80 then c.isAlpha else inRanges alphabeticRanges c.toNat

/-- The characters of the categories Nd, Nl and No. -/
def isNumeric (c : Char) : Bool :=
  if c.toNat < 0x80 then c.isDigit else inRanges numericRanges c.toNat

/-- Letters, numbers and the underscore. -/
def isWordChar (c : Char) : Bool :=
  isAlphabetic c || isNumeric c || c == '_'

/-- The first character of a name: a letter or an underscore. -/
def isNameStart (c : Char) : Bool :=
  isAlphabetic c || c == '_'

/-- A word that does not begin with a number. -/
def isName : List Char → Bool
  | [] => false
  | c :: cs => isNameStart c && cs.all isWordChar

theorem isWordChar_of_isNameStart {c : Char} (h : isNameStart c) : isWordChar c := by
  simp only [isNameStart, isWordChar, Bool.or_eq_true] at *
  rcases h with h | h <;> simp [h]

theorem all_isWordChar_of_isName {cs : List Char} (h : isName cs) : cs.all isWordChar := by
  cases cs with
  | nil => rfl
  | cons c cs =>
    simp only [isName, Bool.and_eq_true] at h
    rw [List.all_cons, isWordChar_of_isNameStart h.1, h.2, Bool.true_and]

/-- The leading word of a text, possibly empty, and what follows it. -/
def splitWord (cs : List Char) : List Char × List Char :=
  (cs.takeWhile isWordChar, cs.dropWhile isWordChar)

end Reparse.Text
