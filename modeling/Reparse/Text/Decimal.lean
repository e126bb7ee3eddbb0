/-!
Decimal numerals. A numeral is one or more ASCII digits, and it may have any number of zeros in
front; where a sign is allowed it is a plus. Numbers are written without zeros in front.
-/

namespace Reparse.Text

/-- The number that ASCII digits spell, most significant digit first. -/
def digitsValue (cs : List Char) : Nat :=
  cs.foldl (fun n c => n * 10 + (c.toNat - '0'.toNat)) 0

/-- The number spelled by one or more ASCII digits and nothing else. -/
def natural? (cs : List Char) : Option Nat :=
  if !cs.isEmpty && cs.all Char.isDigit then some (digitsValue cs) else none

/-- A numeral with an optional plus in front and a value up to the limit. -/
def unsigned? (limit : Nat) (cs : List Char) : Option Nat :=
  let digits := match cs with
    | '+' :: rest => rest
    | _ => cs
  (natural? digits).filter (· ≤ limit)

/-- The digits of a number, without zeros in front. -/
def digits (n : Nat) : List Char :=
  Nat.toDigits 10 n

theorem digits_ne_nil (n : Nat) : digits n ≠ [] :=
  Nat.toDigits_ne_nil

theorem isDigit_of_mem_digits {n : Nat} {c : Char} (h : c ∈ digits n) : c.isDigit = true :=
  Nat.isDigit_of_mem_toDigits (by decide) (Nat.le_refl 10) h

theorem digitsValue_digits (n : Nat) : digitsValue (digits n) = n := by
  have hfold : digitsValue (digits n) = Nat.ofDigitChars 10 (digits n) 0 := by
    simp only [digitsValue, Nat.ofDigitChars_eq_foldl, Nat.mul_comm]
  rw [hfold, digits, Nat.ofDigitChars_ten_toDigits]

/-- Only zero is written with a zero in front. -/
theorem head?_digits_ne {n : Nat} (h : n ≠ 0) : (digits n).head? ≠ some '0' := by
  induction n using Nat.strongRecOn with
  | _ n ih =>
    by_cases hlow : n < 10
    · have hdigit : ∀ d < 10, d ≠ 0 → Nat.digitChar d ≠ '0' := by decide
      rw [digits, Nat.toDigits_of_lt_base hlow]
      exact fun heq => hdigit n hlow h (Option.some.inj heq)
    · have hcut : digits n = digits (n / 10) ++ [(n % 10).digitChar] :=
        Nat.toDigits_of_base_le (by decide) (Nat.le_of_not_lt hlow)
      have hfront := ih (n / 10) (by omega) (by omega)
      obtain ⟨c, cs, hcs⟩ := List.exists_cons_of_ne_nil (digits_ne_nil (n / 10))
      rw [hcs] at hcut hfront
      rwa [hcut]

/-- The digits of an integer, after a minus if it is negative. -/
def signedDigits : Int → List Char
  | .ofNat n => digits n
  | .negSucc n => '-' :: digits (n + 1)

end Reparse.Text
