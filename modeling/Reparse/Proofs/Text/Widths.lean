import Reparse.Parse
import Reparse.Proofs.Lines

/-!
How wide a text is, against the octets that it is read from. An octet brings at most one column: a
character beyond the basic plane takes two columns and four octets, and the sign that stands for a
malformed stretch takes one column for at least one octet. So no line of a text is wider than its
content is long, and there are no more ends of lines than octets.
-/

namespace Reparse

theorem length_toList_loop (content : ByteArray) (i : Nat) (read : List UInt8) :
    (ByteArray.toList.loop content i read).length = content.size - i + read.length := by
  fun_induction ByteArray.toList.loop content i read with
  | case1 i read hlt ih =>
    rw [ih, List.length_cons]
    omega
  | case2 i read hge =>
    rw [List.length_reverse]
    omega

theorem length_toList (content : ByteArray) : content.toList.length = content.size := by
  rw [ByteArray.toList, length_toList_loop, List.length_nil]
  omega

namespace Text

theorem units16_le_two (c : Char) : units16 c ≤ 2 := by
  unfold units16
  split <;> decide

theorem width16_reverse (cs : List Char) : width16 cs.reverse = width16 cs := by
  induction cs with
  | nil => rfl
  | cons c cs ih =>
    rw [List.reverse_cons, width16_append, ih, width16_cons, width16_cons, width16_nil]
    omega

theorem length_le_width16 (cs : List Char) : cs.length ≤ width16 cs := by
  induction cs with
  | nil => exact Nat.le_refl 0
  | cons c cs ih =>
    have hpos := units16_pos c
    rw [List.length_cons, width16_cons]
    omega

/-! ## Octets -/

namespace Utf8

/-- A character of one octet takes one column. -/
theorem units16_of_lead {b : UInt8} {c : Char} (h : lead b = .single c) : units16 c = 1 := by
  have hc : c = Char.ofNat b.toNat := by
    unfold lead at h
    split at h
    · exact (Lead.single.inj h).symm
    · repeat' split at h
      all_goals cases h
  have hb : b.toNat < 256 := b.toNat_lt
  have hvalid : b.toNat.isValidChar := .inl (by omega)
  have hnat : (Char.ofNat b.toNat).toNat = b.toNat := by
    rw [Char.ofNat, dif_pos hvalid]
    rfl
  rw [hc, units16, if_pos (by omega)]

/-- The text that has been read, newest first. -/
def Reader.text (r : Reader) : List Char :=
  r.units.map fun u => u.getD '\uFFFD'

/-- The columns of what has been read, and one that is owed for the character that is open. -/
def Reader.width (r : Reader) : Nat :=
  width16 r.text + r.unfinished.toList.length

theorem Reader.width_first (units : List (Option Char)) (b : UInt8) :
    (first units b).width ≤ (Reader.mk none units).width + 1 := by
  unfold first
  split
  · rename_i c hlead
    have hunits := units16_of_lead hlead
    simp only [width, text, List.map_cons, Option.getD_some, width16_cons, Option.toList_none,
      List.length_nil]
    omega
  · exact Nat.le_refl _
  · have hunits : units16 '\uFFFD' = 1 := rfl
    simp only [width, text, List.map_cons, Option.getD_none, width16_cons, Option.toList_none,
      List.length_nil]
    omega

/-- An octet brings at most one column. The last octet of a character may bring two, of which one
was owed since the first. -/
theorem Reader.width_step (r : Reader) (b : UInt8) : (r.step b).width ≤ r.width + 1 := by
  obtain ⟨unfinished, units⟩ := r
  cases unfinished with
  | none => exact width_first units b
  | some u =>
    simp only [step]
    split
    · split
      · have hunits := units16_le_two (Char.ofNat (u.bits * 0x40 + b.toNat % 0x40))
        simp only [width, text, List.map_cons, Option.getD_some, width16_cons, Option.toList_none,
          Option.toList_some, List.length_nil, List.length_singleton]
        omega
      · exact Nat.le_succ _
    · have hfirst := width_first (none :: units) b
      have hunits : units16 '\uFFFD' = 1 := rfl
      simp only [width, text, List.map_cons, Option.getD_none, width16_cons, Option.toList_none,
        Option.toList_some, List.length_nil, List.length_singleton] at hfirst ⊢
      omega

theorem Reader.width_foldl (r : Reader) (bs : List UInt8) :
    (bs.foldl step r).width ≤ r.width + bs.length := by
  induction bs generalizing r with
  | nil => exact Nat.le_refl _
  | cons b bs ih =>
    have hstep := r.width_step b
    have hrest := ih (r.step b)
    rw [List.foldl_cons, List.length_cons]
    omega

/-- A text is no wider than its octets are many, well formed or not. -/
theorem width16_decode_le (bs : List UInt8) : width16 (decode bs) ≤ bs.length := by
  have hread := Reader.width_foldl ⟨none, []⟩ bs
  have hinitial : Reader.width ⟨none, []⟩ = 0 := rfl
  rw [decode, units, Reader.finish]
  generalize bs.foldl Reader.step ⟨none, []⟩ = r at *
  rw [List.map_reverse, width16_reverse]
  cases hunfinished : r.unfinished with
  | none =>
    rw [Reader.width, hunfinished] at hread
    simp only [Reader.text, Option.toList_none, List.length_nil] at hread ⊢
    omega
  | some u =>
    have hunits : units16 '\uFFFD' = 1 := rfl
    rw [Reader.width, hunfinished] at hread
    simp only [Reader.text, Option.toList_some, List.length_singleton, List.map_cons,
      Option.getD_none, width16_cons] at hread ⊢
    omega

end Utf8

/-! ## Lines -/

theorem width16_joinBreaks_le (text : List Char) : width16 (joinBreaks text) ≤ width16 text := by
  fun_induction joinBreaks text with
  | case1 text ih =>
    simp only [width16_cons]
    omega
  | case2 c text _ ih =>
    simp only [width16_cons]
    omega
  | case3 => exact Nat.le_refl _

/-- Lines are no wider than the text in which they stand with their line feeds. -/
theorem width16_le_of_mem_unlines (ls : List (List Char)) :
    ls.length ≤ width16 (unlines ls) ∧ ∀ l ∈ ls, width16 l ≤ width16 (unlines ls) := by
  induction ls with
  | nil => exact ⟨Nat.le_refl 0, nofun⟩
  | cons line ls ih =>
    obtain ⟨hlength, hwidth⟩ := ih
    have hbreak : units16 '\n' = 1 := rfl
    rw [unlines_cons, width16_append, width16_cons, hbreak, List.length_cons]
    refine ⟨by omega, List.forall_mem_cons.2 ⟨by omega, ?_⟩⟩
    intro l hl
    have hle := hwidth l hl
    omega

theorem Spells.width16_le {ls : List (List Char)} {text : List Char} (h : Spells ls text) :
    ls.length ≤ width16 text + 1 ∧ ∀ l ∈ ls, width16 l ≤ width16 text := by
  cases h with
  | ended =>
    obtain ⟨hlength, hwidth⟩ := width16_le_of_mem_unlines ls
    exact ⟨Nat.le_succ_of_le hlength, hwidth⟩
  | unended front last =>
    obtain ⟨hlength, hwidth⟩ := width16_le_of_mem_unlines front
    rw [width16_append, List.length_append, List.length_singleton]
    refine ⟨by omega, ?_⟩
    intro l hl
    rcases List.mem_append.1 hl with hl | hl
    · have hle := hwidth l hl
      omega
    · rw [List.mem_singleton.1 hl]
      omega

/-- A line is no wider than its text, and one line more than columns is the most there can be. -/
theorem width16_le_of_mem_lines (text : List Char) :
    (lines text).length ≤ width16 text + 1 ∧ ∀ l ∈ lines text, width16 l ≤ width16 text := by
  obtain ⟨hlength, hwidth⟩ := (spells_lines text).width16_le
  have hjoin := width16_joinBreaks_le text
  refine ⟨by omega, ?_⟩
  intro l hl
  have hle := hwidth l hl
  omega

end Text

/-- What is read from some octets is no wider than they are many. -/
theorem width16_decodeText_le (content : ByteArray) :
    Text.width16 (decodeText content) ≤ content.size := by
  have hdecode := Text.Utf8.width16_decode_le content.toList
  rw [length_toList] at hdecode
  unfold decodeText
  split
  · rename_i cs hmark
    rw [hmark, Text.width16_cons] at hdecode
    omega
  · exact hdecode

/-- No line of a text is wider than its octets are many. -/
theorem lines_decodeText (content : ByteArray) :
    (Text.lines (decodeText content)).length ≤ content.size + 1 ∧
      ∀ l ∈ Text.lines (decodeText content), Text.width16 l ≤ content.size := by
  obtain ⟨hlength, hwidth⟩ := Text.width16_le_of_mem_lines (decodeText content)
  have hle := width16_decodeText_le content
  refine ⟨by omega, ?_⟩
  intro l hl
  exact Nat.le_trans (hwidth l hl) hle

end Reparse
