import Mathlib.Data.Nat.Digits.Defs
import Reparse.LanguageVersion
import Reparse.Proofs.Text.Cutting

/-!
The grammar of versions. Main statement: the texts that are read as a version are exactly those that
spell one, which are two numerals with a dot between them and blanks around the whole; the version
has the numbers of the numerals; every other text is refused under its own name, blanks included;
and a version that is written is read again.
-/

namespace Reparse

namespace Text

/-! ## Numerals -/

/-- Digits as they are written, most significant first. -/
def written (ds : List (Fin 10)) : List Char :=
  ds.map fun d : Fin 10 => Nat.digitChar d

/-- The number that digits denote to the base ten, most significant first. -/
def decimal (ds : List (Fin 10)) : Nat :=
  Nat.ofDigits 10 (ds.reverse.map Fin.val)

/-- The text is a numeral of the number: one digit or more, and perhaps a plus in front. -/
inductive Numeral : List Char → Nat → Prop where
  | plain {ds : List (Fin 10)} : ds ≠ [] → Numeral (written ds) (decimal ds)
  | signed {ds : List (Fin 10)} : ds ≠ [] → Numeral ('+' :: written ds) (decimal ds)

section Digits

variable {cs : List Char} {n : Nat}

theorem isDigit_of_mem_written {ds : List (Fin 10)} {c : Char} (h : c ∈ written ds) :
    c.isDigit = true := by
  obtain ⟨d, -, rfl⟩ := List.mem_map.1 h
  rw [Nat.isDigit_digitChar]
  exact decide_eq_true d.isLt

/-- Digit characters are the digits as they are written. -/
theorem exists_written_eq (h : ∀ c ∈ cs, c.isDigit = true) : ∃ ds, written ds = cs := by
  induction cs with
  | nil => exact ⟨[], rfl⟩
  | cons c cs ih =>
    obtain ⟨hc, hcs⟩ := List.forall_mem_cons.1 h
    obtain ⟨ds, rfl⟩ := ih hcs
    obtain ⟨hlow, hhigh⟩ : 48 ≤ c.toNat ∧ c.toNat ≤ 57 := Char.isDigit_iff_toNat.1 hc
    have hlt : c.toNat - 48 < 10 := by omega
    have hchar : Nat.digitChar (c.toNat - 48) = c := by
      apply Char.toNat_inj.1
      rw [Nat.toNat_digitChar_of_lt_ten hlt]
      omega
    exact ⟨⟨c.toNat - 48, hlt⟩ :: ds, congrArg (· :: written ds) hchar⟩

/-- Reading digits one by one gives their number. -/
theorem digitsValue_written (ds : List (Fin 10)) : digitsValue (written ds) = decimal ds := by
  have hread : ∀ n, (written ds).foldl (fun n c => n * 10 + (c.toNat - '0'.toNat)) n =
      n * 10 ^ ds.length + decimal ds := by
    induction ds with
    | nil => simp [written, decimal]
    | cons d ds ih =>
      intro n
      have hd : (Nat.digitChar d).toNat - '0'.toNat = d :=
        Nat.toNat_digitChar_sub_48_of_lt_ten d.isLt
      have hcons : decimal (d :: ds) = decimal ds + 10 ^ ds.length * d := by
        simp [decimal, Nat.ofDigits_append]
      rw [written, List.map_cons, List.foldl_cons, ← written, ih, hd, hcons, List.length_cons]
      ring
  simpa [digitsValue] using hread 0

theorem natural?_eq_some_iff :
    natural? cs = some n ↔ ∃ ds ≠ [], cs = written ds ∧ n = decimal ds := by
  rw [natural?, Option.ite_none_right_eq_some]
  simp only [Bool.and_eq_true, Bool.not_eq_true', List.isEmpty_eq_false_iff, List.all_eq_true,
    Option.some.injEq]
  constructor
  · rintro ⟨⟨hne, hdigits⟩, rfl⟩
    obtain ⟨ds, rfl⟩ := exists_written_eq hdigits
    exact ⟨ds, fun h => hne (congrArg written h), rfl, digitsValue_written ds⟩
  · rintro ⟨ds, hne, rfl, rfl⟩
    exact ⟨⟨fun h => hne (List.map_eq_nil_iff.1 h), fun c => isDigit_of_mem_written⟩,
      digitsValue_written ds⟩

theorem plus_not_mem_written (ds : List (Fin 10)) : '+' ∉ written ds :=
  fun h => absurd (isDigit_of_mem_written h) (by decide)

/-- What is read as a number up to a limit is a numeral of it. -/
theorem unsigned?_eq_some_iff {limit : Nat} :
    unsigned? limit cs = some n ↔ Numeral cs n ∧ n ≤ limit := by
  unfold unsigned?
  rw [Option.filter_eq_some_iff, natural?_eq_some_iff, decide_eq_true_iff]
  refine and_congr_left fun _ => ?_
  constructor
  · rintro ⟨ds, hne, heq, rfl⟩
    split at heq
    · rw [heq]
      exact .signed hne
    · rw [heq]
      exact .plain hne
  · intro h
    cases h with
    | @plain ds hne =>
      refine ⟨ds, hne, ?_, rfl⟩
      split
      · rename_i rest heq
        exact absurd (heq ▸ List.mem_cons_self) (plus_not_mem_written ds)
      · rfl
    | @signed ds hne => exact ⟨ds, hne, rfl, rfl⟩

/-- A numeral has nothing in it but digits and perhaps a plus. -/
theorem Numeral.isDigit_of_mem (h : Numeral cs n) {c : Char} (hc : c ∈ cs) (hplus : c ≠ '+') :
    c.isDigit = true := by
  cases h with
  | plain _ => exact isDigit_of_mem_written hc
  | signed _ =>
    rcases List.mem_cons.1 hc with rfl | hc
    · exact absurd rfl hplus
    · exact isDigit_of_mem_written hc

theorem Numeral.ne_nil (h : Numeral cs n) : cs ≠ [] := by
  cases h with
  | plain hne => exact fun h => hne (List.map_eq_nil_iff.1 h)
  | signed _ => exact List.cons_ne_nil _ _

/-- A numeral has no dot in it. -/
theorem Numeral.dot_not_mem (h : Numeral cs n) : '.' ∉ cs :=
  fun hdot => absurd (h.isDigit_of_mem hdot (by decide)) (by decide)

theorem isBlank_of_isDigit {c : Char} (h : c.isDigit = true) : isBlank c = false := by
  obtain ⟨hlow, hhigh⟩ : 48 ≤ c.toNat ∧ c.toNat ≤ 57 := Char.isDigit_iff_toNat.1 h
  simp only [isBlank, Bool.or_eq_false_iff, Bool.and_eq_false_iff, decide_eq_false_iff_not,
    beq_eq_false_iff_ne]
  omega

/-- A numeral has no blank in it. -/
theorem Numeral.solid (h : Numeral cs n) : Solid isBlank cs := by
  refine .of_forall h.ne_nil ?_
  intro c hc
  by_cases hplus : c = '+'
  · rw [hplus]
    rfl
  · exact isBlank_of_isDigit (h.isDigit_of_mem hc hplus)

/-- A number as it is written is a numeral of it. -/
theorem numeral_digits (n : Nat) : Numeral (digits n) n := by
  obtain ⟨ds, hds⟩ := exists_written_eq fun c => isDigit_of_mem_digits
  have hne : ds ≠ [] := by
    rintro rfl
    exact digits_ne_nil n hds.symm
  have hnumeral := Numeral.plain hne
  rwa [← digitsValue_written, hds, digitsValue_digits] at hnumeral

end Digits

end Text

namespace LanguageVersion

/-! ## Spellings -/

/-- The text spells the version: the numerals of its two numbers with a dot between them, and
perhaps blanks around the whole. The numbers are octets, so greater numerals spell no version. -/
def Spells (v : LanguageVersion) (cs : List Char) : Prop :=
  ∃ front major minor back, cs = front ++ (major ++ '.' :: minor ++ back) ∧
    (∀ c ∈ front, Text.isBlank c = true) ∧ (∀ c ∈ back, Text.isBlank c = true) ∧
    Text.Numeral major v.major.toNat ∧ Text.Numeral minor v.minor.toNat

theorem number?_eq_some_iff {cs : List Char} {n : UInt8} :
    number? cs = some n ↔ Text.Numeral cs n.toNat := by
  rw [number?, Option.map_eq_some_iff]
  simp only [Text.unsigned?_eq_some_iff]
  constructor
  · rintro ⟨m, ⟨hm, hle⟩, rfl⟩
    rwa [UInt8.toNat_ofNat_of_lt' (Nat.lt_succ_of_le hle)]
  · intro h
    exact ⟨n.toNat, ⟨h, Nat.le_of_lt_succ n.toNat_lt⟩, UInt8.ofNat_toNat⟩

theorem parse?_eq_some_iff {s : String} {v : LanguageVersion} :
    parse? s = some v ↔ Spells v s.toList := by
  simp only [parse?, Option.bind_eq_bind, Option.bind_eq_some_iff, Option.pure_def,
    Option.some.injEq, Prod.exists, number?_eq_some_iff]
  constructor
  · rintro ⟨major, minor, hsplit, m, hm, n, hn, rfl⟩
    obtain ⟨front, back, hs, hfront, hback⟩ := Text.exists_append_trim s.toList
    have hcore := Text.append_of_splitOnce hsplit
    refine ⟨front, major, minor, back, ?_, hfront, hback, hm, hn⟩
    rw [hs, hcore]
    simp
  · rintro ⟨front, major, minor, back, hs, hfront, hback, hmajor, hminor⟩
    have hsolid : Text.Solid Text.isBlank (major ++ '.' :: minor) :=
      hmajor.solid.append hminor.solid ['.']
    refine ⟨major, minor, ?_, v.major, hmajor, v.minor, hminor, rfl⟩
    rw [hs, hsolid.trim hfront hback]
    exact Text.splitOnce_append_cons hmajor.dot_not_mem minor

theorem spells_toText (v : LanguageVersion) : Spells v v.toText.toList := by
  refine ⟨[], Text.digits v.major.toNat, Text.digits v.minor.toNat, [], ?_,
    fun _ => List.not_mem_nil.elim, fun _ => List.not_mem_nil.elim, Text.numeral_digits _,
    Text.numeral_digits _⟩
  rw [toText, String.toList_ofList]
  simp

/-- A text is read as a version if and only if it spells that version. Every other text is refused,
and the failure names the text as it was given. A version as it is written spells itself, so it is
read again. -/
theorem parse_accepts_spellings (s : String) :
    (∀ v, parse s = .ok v ↔ Spells v s.toList) ∧
    (∀ failure, parse s = .error failure ↔
      failure = .invalidLanguageVersion s ∧ ∀ v, ¬Spells v s.toList) ∧
    ∀ v : LanguageVersion, parse v.toText = .ok v := by
  have hok : ∀ (t : String) v, parse t = .ok v ↔ Spells v t.toList := by
    intro t v
    rw [← parse?_eq_some_iff, parse]
    cases parse? t <;> simp
  refine ⟨hok s, ?_, fun v => (hok v.toText v).2 (spells_toText v)⟩
  intro failure
  simp only [← parse?_eq_some_iff, parse]
  cases parse? s <;> simp [eq_comm]

example : parse " +03.000255\u00a0" = .ok ⟨3, 255⟩ ∧
    parse "3.256" = .error (.invalidLanguageVersion "3.256") ∧
    parse "3 .1" = .error (.invalidLanguageVersion "3 .1") := by decide +kernel

end LanguageVersion

end Reparse
