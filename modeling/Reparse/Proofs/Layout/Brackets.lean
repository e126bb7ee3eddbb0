import Reparse.Bracket
import Reparse.Fault
import Reparse.Position

/-!
Well-nested words of brackets, and matching with a stack. A closer takes one opener off the stack,
whether it fits that one or not, and one that finds the stack empty takes none; what is left on the
stack at the end is never closed. Main statement: matching finds nothing wrong with a word if and
only if the word is well-nested.
-/

namespace Reparse.Bracket

/-- The words of brackets in which every opener has its closer behind a word of the same sort. -/
inductive WellNested : List Char → Prop where
  | nil : WellNested []
  | cons {opener : Char} {u v : List Char} :
      isOpener opener → WellNested u → WellNested v →
      WellNested (opener :: (u ++ closerOf opener :: v))

/-- A character that opens or closes a bracket. -/
def isBracket (c : Char) : Bool :=
  isOpener c || isCloser c

/-- A bracket of a text, and its place. -/
structure Mark where
  char : Char
  place : Position
deriving DecidableEq, Repr

/-- What matching finds wrong: the brackets that do not fit, in the order of the text, and then the
openers on the stack, the outermost first. The stack has its newest opener in front. -/
def mismatches (stack : List Mark) : List Mark → List (Position × Fault)
  | [] => stack.reverse.map fun o => (o.place, .neverClosed o.char)
  | m :: ms =>
    if isOpener m.char then mismatches (m :: stack) ms
    else
      match stack with
      | [] => (m.place, .unmatched m.char) :: mismatches [] ms
      | o :: stack =>
        if closerOf o.char = m.char then mismatches stack ms
        else (m.place, .mismatched m.char o.char) :: mismatches stack ms

theorem mismatches_nil (stack : List Mark) :
    mismatches stack [] = stack.reverse.map fun o => (o.place, .neverClosed o.char) := by
  cases stack <;> rfl

theorem mismatches_opener {m : Mark} (hm : isOpener m.char = true) (stack ms : List Mark) :
    mismatches stack (m :: ms) = mismatches (m :: stack) ms := by
  cases stack <;> exact if_pos hm

theorem mismatches_closer_nil {m : Mark} (hm : isOpener m.char = false) (ms : List Mark) :
    mismatches [] (m :: ms) = (m.place, .unmatched m.char) :: mismatches [] ms :=
  if_neg (by simp [hm])

theorem mismatches_closer_cons {m : Mark} (hm : isOpener m.char = false) (o : Mark)
    (stack ms : List Mark) :
    mismatches (o :: stack) (m :: ms) =
      if closerOf o.char = m.char then mismatches stack ms
      else (m.place, .mismatched m.char o.char) :: mismatches stack ms :=
  if_neg (by simp [hm])

theorem isOpener_closerOf (opener : Char) : isOpener (closerOf opener) = false := by
  unfold closerOf
  split
  · rfl
  split <;> rfl

theorem isCloser_eq_false_of_isOpener {c : Char} (h : isOpener c = true) : isCloser c = false := by
  simp only [isOpener, Bool.or_eq_true, beq_iff_eq] at h
  rcases h with (rfl | rfl) | rfl <;> rfl

/-! ## Closing what is open -/

/-- The word closes the openers, the one in front first, and is well-nested apart from that. -/
def Closes : List Char → List Char → Prop
  | [], word => WellNested word
  | opener :: openers, word =>
    ∃ u v, word = u ++ closerOf opener :: v ∧ WellNested u ∧ Closes openers v

theorem WellNested.isOpener_of_cons {c : Char} {word : List Char} (h : WellNested (c :: word)) :
    isOpener c = true := by
  cases h with
  | cons hopener => exact hopener

theorem wellNested_cons_iff {c : Char} {word : List Char} (hc : isOpener c = true) :
    WellNested (c :: word) ↔ Closes [c] word := by
  constructor
  · intro h
    cases h with
    | cons _ hu hv => exact ⟨_, _, rfl, hu, hv⟩
  · rintro ⟨u, v, rfl, hu, hv⟩
    exact .cons hc hu hv

theorem closes_nil_iff {openers : List Char} : Closes openers [] ↔ openers = [] := by
  cases openers with
  | nil => exact iff_of_true .nil rfl
  | cons opener openers =>
    refine iff_of_false ?_ nofun
    rintro ⟨u, v, h, -⟩
    simp at h

/-- An opener is one more to be closed. -/
theorem closes_opener_iff {openers : List Char} {c : Char} {word : List Char}
    (hc : isOpener c = true) : Closes openers (c :: word) ↔ Closes (c :: openers) word := by
  cases openers with
  | nil => exact wellNested_cons_iff hc
  | cons opener openers =>
    constructor
    · rintro ⟨u, v, hword, hu, hv⟩
      cases hu with
      | nil =>
        rw [List.nil_append, List.cons.injEq] at hword
        rw [hword.1, isOpener_closerOf] at hc
        cases hc
      | @cons first u₁ u₂ hfirst hu₁ hu₂ =>
        rw [List.cons_append, List.cons.injEq] at hword
        obtain ⟨rfl, rfl⟩ := hword
        exact ⟨u₁, u₂ ++ closerOf opener :: v, by simp, hu₁, u₂, v, rfl, hu₂, hv⟩
    · rintro ⟨u₁, rest, rfl, hu₁, u₂, v, rfl, hu₂, hv⟩
      exact ⟨c :: (u₁ ++ closerOf c :: u₂), v, by simp, .cons hc hu₁ hu₂, hv⟩

theorem not_wellNested_closer {c : Char} (hc : isOpener c = false) (word : List Char) :
    ¬WellNested (c :: word) := by
  intro h
  rw [h.isOpener_of_cons] at hc
  cases hc

/-- A closer has to fit the opener in front. -/
theorem closes_closer_iff {opener : Char} {openers : List Char} {c : Char} {word : List Char}
    (hc : isOpener c = false) :
    Closes (opener :: openers) (c :: word) ↔ closerOf opener = c ∧ Closes openers word := by
  constructor
  · rintro ⟨u, v, hword, hu, hv⟩
    cases u with
    | nil =>
      rw [List.nil_append, List.cons.injEq] at hword
      exact ⟨hword.1.symm, hword.2 ▸ hv⟩
    | cons d u =>
      rw [List.cons_append, List.cons.injEq] at hword
      exact absurd (hword.1 ▸ hu) (not_wellNested_closer hc u)
  · rintro ⟨rfl, hv⟩
    exact ⟨[], word, rfl, .nil, hv⟩

/-- Matching finds nothing wrong where the word closes what is on the stack. -/
theorem mismatches_eq_nil_iff_closes (stack ms : List Mark) :
    mismatches stack ms = [] ↔ Closes (stack.map Mark.char) (ms.map Mark.char) := by
  induction ms generalizing stack with
  | nil =>
    rw [mismatches_nil, List.map_nil, closes_nil_iff]
    simp
  | cons m ms ih =>
    rw [List.map_cons]
    cases hm : isOpener m.char with
    | true => rw [mismatches_opener hm, ih, List.map_cons, closes_opener_iff hm]
    | false =>
      cases stack with
      | nil =>
        rw [mismatches_closer_nil hm]
        exact iff_of_false (List.cons_ne_nil _ _) (not_wellNested_closer hm _)
      | cons o stack =>
        rw [mismatches_closer_cons hm, List.map_cons, closes_closer_iff hm]
        split
        · rename_i hfits
          rw [ih, and_iff_right hfits]
        · rename_i hfits
          exact iff_of_false (List.cons_ne_nil _ _) fun h => hfits h.1

/-- Matching decides whether a word is well-nested. -/
theorem mismatches_eq_nil_iff (ms : List Mark) :
    mismatches [] ms = [] ↔ WellNested (ms.map Mark.char) :=
  mismatches_eq_nil_iff_closes [] ms

end Reparse.Bracket
