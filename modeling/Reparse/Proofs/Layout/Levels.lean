import Mathlib.Data.List.TakeWhile
import Reparse.Proofs.Layout.Reader

/-!
The stack of open indentations. `settle` says on the stack alone what the beginning of a logical
line does to it: levels are closed down to the column of the line, but never the last one, and a
column that is not met is opened. So the ground stays at the bottom, columns rise from it, and the
line's own column is at the top. A line at the very left closes all indentations, and what is read
after it knows nothing of what was before, unless a logical line is still open.
-/

namespace Reparse.Layout

namespace Indent

/-- The column tells whether there is an indentation at all. -/
theorem eq_ground_of_extend? {w w' : Indent} {c : Char} (h : w.extend? c = some w')
    (hcolumn : w'.column = 0) : w' = ground := by
  unfold extend? at h
  split at h
  · cases h
    exact absurd hcolumn (Nat.succ_ne_zero _)
  split at h
  · cases h
    exact absurd hcolumn (by dsimp only; omega)
  split at h
  · exact (Option.some.inj h).symm
  · cases h

theorem measureFrom_eq_ground {w : Indent} {n : Nat} {line : List Char}
    (hw : w.column = 0 → w = ground) (h : (measureFrom w n line).1.column = 0) :
    (measureFrom w n line).1 = ground := by
  induction line generalizing w n with
  | nil => exact hw h
  | cons c cs ih =>
    rw [measureFrom] at h ⊢
    cases hext : w.extend? c with
    | none =>
      rw [hext] at h
      exact hw h
    | some w' =>
      rw [hext] at h
      exact ih (eq_ground_of_extend? hext) h

theorem measure_eq_ground {line : List Char} (h : (measure line).1.column = 0) :
    (measure line).1 = ground :=
  measureFrom_eq_ground (fun _ => rfl) h

end Indent

/-! ## The stack alone -/

/-- Closes the indentations that are further in than a column. The last one is never closed. -/
def unwind (column : Nat) : List Indent → List Indent
  | [] => []
  | top :: rest => if column < top.column ∧ rest ≠ [] then unwind column rest else top :: rest

/-- The stack after a line at an indentation: what is further in is closed, and the indentation is
opened unless the innermost one that is left has its column. -/
def settle (w : Indent) (stack : List Indent) : List Indent :=
  let left := unwind w.column stack
  if w.column = (State.level left).column then left else w :: left

/-- The ground is at the bottom of the stack, and columns rise from it. -/
structure Grounded (stack : List Indent) : Prop where
  bottom : stack.getLast? = some .ground
  rising : stack.Pairwise fun inner outer => outer.column < inner.column

namespace Grounded

variable {stack : List Indent}

theorem ground : Grounded [.ground] :=
  ⟨rfl, List.pairwise_singleton _ _⟩

/-- Closing indentations leaves those that are not further in, and one of them is innermost. -/
theorem exists_unwind (h : Grounded stack) (column : Nat) :
    ∃ top rest, unwind column stack = top :: rest ∧ Grounded (top :: rest) ∧
      top.column ≤ column ∧ (top :: rest).Sublist stack ∧
      ∀ t ∈ stack, t.column ≤ column → t ∈ top :: rest := by
  induction stack with
  | nil => exact absurd h.bottom (by simp)
  | cons top rest ih =>
    rw [unwind]
    split
    · rename_i hclose
      obtain ⟨hlt, hne⟩ := hclose
      have hrest : Grounded rest := by
        refine ⟨?_, (List.pairwise_cons.1 h.rising).2⟩
        rw [← List.getLast?_cons_of_ne_nil hne]
        exact h.bottom
      obtain ⟨top', rest', heq, hleft, hle, hsub, hstays⟩ := ih hrest
      refine ⟨top', rest', heq, hleft, hle, hsub.cons top, ?_⟩
      intro t ht hcolumn
      rcases List.mem_cons.1 ht with rfl | ht
      · omega
      · exact hstays t ht hcolumn
    · rename_i hstop
      refine ⟨top, rest, rfl, h, ?_, List.Sublist.refl _, fun t ht _ => ht⟩
      by_cases hne : rest = []
      · have hground : top = .ground := by
          have hbottom := h.bottom
          rw [hne] at hbottom
          exact Option.some.inj hbottom
        rw [hground]
        exact Nat.zero_le column
      · by_contra hnot
        exact hstop ⟨by omega, hne⟩

/-- A column is met by an indentation that is open if and only if it is the innermost one that is
left when those further in are closed. -/
theorem level_unwind_iff (h : Grounded stack) (column : Nat) :
    column = (State.level (unwind column stack)).column ↔ column ∈ stack.map Indent.column := by
  obtain ⟨top, rest, heq, hleft, hle, hsub, hstays⟩ := h.exists_unwind column
  rw [heq]
  change column = top.column ↔ _
  constructor
  · intro hcolumn
    rw [hcolumn]
    exact List.mem_map_of_mem (hsub.subset (.head _))
  · intro hmem
    obtain ⟨t, ht, rfl⟩ := List.mem_map.1 hmem
    rcases List.mem_cons.1 (hstays t ht (Nat.le_refl _)) with rfl | htail
    · rfl
    · have hlt := (List.pairwise_cons.1 hleft.rising).1 t htail
      omega

theorem level_mem (h : Grounded stack) : State.level stack ∈ stack := by
  cases stack with
  | nil => exact absurd h.bottom (by simp)
  | cons top rest => exact .head _

/-- The innermost column is the greatest. -/
theorem le_level (h : Grounded stack) {t : Indent} (ht : t ∈ stack) :
    t.column ≤ (State.level stack).column := by
  cases stack with
  | nil => cases ht
  | cons top rest =>
    rcases List.mem_cons.1 ht with rfl | ht
    · exact Nat.le_refl _
    · exact Nat.le_of_lt ((List.pairwise_cons.1 h.rising).1 t ht)

/-- A line leaves the ground at the bottom and columns that rise from it, with its own at the top,
and no indentation is lost that is not further in than the line. -/
theorem settle (h : Grounded stack) (w : Indent) :
    Grounded (settle w stack) ∧ (settle w stack).head?.map Indent.column = some w.column ∧
      ∀ t ∈ stack, t.column ≤ w.column → t ∈ settle w stack := by
  obtain ⟨top, rest, heq, hleft, hle, -, hstays⟩ := h.exists_unwind w.column
  rw [Layout.settle, heq]
  split
  · rename_i hmeets
    refine ⟨hleft, ?_, hstays⟩
    rw [hmeets]
    rfl
  · rename_i hnot
    have hne : w.column ≠ top.column := hnot
    refine ⟨⟨?_, ?_⟩, rfl, fun t ht hcolumn => .tail _ (hstays t ht hcolumn)⟩
    · rw [List.getLast?_cons_cons]
      exact hleft.bottom
    · apply List.pairwise_cons.2
      refine ⟨?_, hleft.rising⟩
      intro t ht
      have htop := hleft.le_level ht
      change t.column ≤ top.column at htop
      omega

end Grounded

/-! ## The reader's stack -/

/-- Closing indentations of the reader never reaches the ground. -/
theorem unwind_append_ground (column : Nat) (levels : List Indent) :
    unwind column (levels ++ [.ground]) =
      (levels.dropWhile fun t => column < t.column) ++ [.ground] := by
  induction levels with
  | nil => simp [unwind]
  | cons top levels ih =>
    rw [List.cons_append, unwind, List.dropWhile_cons]
    by_cases hlt : column < top.column
    · rw [if_pos ⟨hlt, by simp⟩, if_pos (decide_eq_true hlt), ih]
    · rw [if_neg fun h => hlt h.1, if_neg (by simpa using hlt), List.cons_append]

theorem level_append_ground (levels : List Indent) :
    State.level (levels ++ [.ground]) = State.level levels := by
  cases levels <;> rfl

namespace State

variable {s : State}

/-- The reader's stack settles. -/
theorem stack_indent (s : State) (w : Indent) (range : Range) :
    (s.indent w range).stack = settle w s.stack := by
  have hsettle : settle w s.stack =
      if w.column = (level (s.levels.dropWhile fun t => w.column < t.column)).column then
        (s.levels.dropWhile fun t => w.column < t.column) ++ [.ground]
      else w :: ((s.levels.dropWhile fun t => w.column < t.column) ++ [.ground]) := by
    rw [settle, stack, unwind_append_ground, level_append_ground]
  rw [hsettle, State.indent]
  by_cases hfurther : (level s.levels).column < w.column
  · have hstays : (s.levels.dropWhile fun t => w.column < t.column) = s.levels := by
      cases hlevels : s.levels with
      | nil => rfl
      | cons top levels =>
        rw [hlevels] at hfurther
        have hnot : ¬w.column < top.column := Nat.lt_asymm hfurther
        rw [List.dropWhile_cons, if_neg (by simpa using hnot)]
    rw [if_pos hfurther, hstays, if_neg (by omega), stack, indentTo]
    simp
  · rw [if_neg hfurther, dedentTo_eq]
    dsimp only
    by_cases hmeets : w.column = (level (s.levels.dropWhile fun t => w.column < t.column)).column
    · rw [if_neg (not_not_intro hmeets), if_pos hmeets]
      rfl
    · rw [if_pos hmeets, if_neg hmeets]
      rfl

theorem stack_readCode (s : State) (d : Draft) (pos : Position) (line : List Char) :
    (s.readCode d pos line).stack = s.stack := by
  rw [stack, levels_readCode, stack]

/-- No line can bring the stack out of order. -/
theorem grounded_readLine (h : Grounded s.stack) (row : Nat) (line : List Char) :
    Grounded (s.readLine row line).stack := by
  rcases s.readLine_cases row line with ⟨d, -, hcode⟩ | ⟨-, ⟨-, hnone⟩ | ⟨-, hbegin⟩⟩
  · rw [hcode, stack_readCode]
    exact h
  · rw [hnone]
    exact h
  · rw [hbegin, stack_readCode, stack_indent]
    exact (h.settle _).1

theorem grounded_readLines (h : Grounded s.stack) (row : Nat) (lines : List (List Char)) :
    Grounded (s.readLines row lines).stack := by
  induction lines generalizing s row with
  | nil => exact h
  | cons line lines ih => exact ih (grounded_readLine h row line) (row + 1)

/-- A logical line at the very left closes all indentations, and a header before it lacks its
block. -/
theorem indent_ground (h : Grounded s.stack) (range : Range) :
    s.indent .ground range = ⟨[], none, s.draft, s.reportMissing.events⟩ := by
  have hleft : (s.levels.dropWhile fun t => Indent.ground.column < t.column) = [] := by
    rw [List.dropWhile_eq_nil_iff]
    intro t ht
    exact decide_eq_true ((List.pairwise_append.1 h.rising).2.2 t ht .ground (.head _))
  have hnot : ¬(level s.levels).column < Indent.ground.column := Nat.not_lt_zero _
  rw [indent, if_neg hnot, dedentTo_eq]
  simp only [hleft]
  simp [level, faultIf, Indent.ground]

end State

end Reparse.Layout
