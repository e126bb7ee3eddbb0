import Reparse.Text.Lines

/-!
A text and its lines. Where carriage returns before line feeds are left out, a text is its lines
again, each with a line feed behind it, but that the last one may lack it.
-/

namespace Reparse.Text

/-- Lines of two texts, the first of which does not end within a line. -/
theorem lines_append_of_newline {a : List Char} (b : List Char)
    (ha : a = [] ∨ a.getLast? = some '\n') : lines (a ++ b) = lines a ++ lines b := by
  rcases ha with rfl | ha
  · rfl
  · obtain ⟨front, rfl⟩ := List.getLast?_eq_some_iff.1 ha
    rw [List.append_assoc, List.singleton_append, lines_append_newline]

/-- The text without the carriage returns that stand right before a line feed. -/
def joinBreaks : List Char → List Char
  | '\r' :: '\n' :: cs => '\n' :: joinBreaks cs
  | c :: cs => c :: joinBreaks cs
  | [] => []

/-- Lines written one after the other, each with its line feed. -/
def unlines (ls : List (List Char)) : List Char :=
  ls.flatMap (· ++ ['\n'])

theorem unlines_cons (line : List Char) (ls : List (List Char)) :
    unlines (line :: ls) = line ++ '\n' :: unlines ls := by
  simp [unlines]

theorem joinBreaks_cons_cons (c : Char) {d : Char} (hd : d ≠ '\n') (cs : List Char) :
    joinBreaks (c :: d :: cs) = c :: joinBreaks (d :: cs) := by
  rw [joinBreaks.eq_2]
  intro cs' hc heq
  exact hd (List.cons.inj heq).1

theorem joinBreaks_of_not_mem {line : List Char} (h : '\n' ∉ line) : joinBreaks line = line := by
  induction line with
  | nil => rfl
  | cons c line ih =>
    cases line with
    | nil => simp [joinBreaks]
    | cons d line =>
      have hd : d ≠ '\n' := fun e => h (e ▸ List.mem_cons_of_mem _ (.head _))
      rw [joinBreaks_cons_cons c hd, ih fun hmem => h (.tail _ hmem)]

theorem closeLine_append_singleton {line : List Char} (h : line ≠ []) (c : Char) :
    closeLine (line ++ [c]) = c :: closeLine line := by
  obtain ⟨d, line, rfl⟩ := List.exists_cons_of_ne_nil h
  unfold closeLine
  by_cases hd : d = '\r'
  · subst hd
    simp
  · simp [hd]

/-- At the end of a line its carriage return is left out. -/
theorem joinBreaks_append_newline {line : List Char} (h : '\n' ∉ line) (cs : List Char) :
    joinBreaks (line ++ '\n' :: cs) = closeLine line.reverse ++ '\n' :: joinBreaks cs := by
  induction line with
  | nil => simp [joinBreaks, closeLine]
  | cons c line ih =>
    cases line with
    | nil =>
      by_cases hc : c = '\r'
      · subst hc
        simp [joinBreaks, closeLine]
      · simp [joinBreaks, closeLine, hc]
    | cons d line =>
      have hd : d ≠ '\n' := fun e => h (e ▸ List.mem_cons_of_mem _ (.head _))
      have hstep := ih fun hmem => h (.tail _ hmem)
      have hne : (d :: line).reverse ≠ [] := by simp
      rw [List.reverse_cons (a := c), closeLine_append_singleton hne]
      exact (joinBreaks_cons_cons c hd _).trans (congrArg (c :: ·) hstep)

/-- The lines spell the text, but that the last one may lack its line feed in it. -/
inductive Spells : List (List Char) → List Char → Prop
  | ended (ls : List (List Char)) : Spells ls (unlines ls)
  | unended (front : List (List Char)) (last : List Char) :
    Spells (front ++ [last]) (unlines front ++ last)

theorem Spells.cons {ls : List (List Char)} {text : List Char} (h : Spells ls text)
    (line : List Char) : Spells (line :: ls) (line ++ '\n' :: text) := by
  cases h with
  | ended =>
    rw [← unlines_cons]
    exact .ended (line :: ls)
  | unended front last =>
    have hcons : line ++ '\n' :: (unlines front ++ last) = unlines (line :: front) ++ last := by
      simp [unlines_cons]
    exact hcons ▸ .unended (line :: front) last

/-- What is left of a text behind its first line: nothing, or a line feed and the other lines. -/
theorem Spells.exists_tail {line : List Char} {ls : List (List Char)} {text : List Char}
    (h : Spells (line :: ls) text) : ∃ tail rest, text = line ++ tail ∧ Spells ls rest ∧
      (tail = '\n' :: rest ∨ tail = [] ∧ rest = []) := by
  generalize hall : line :: ls = all at h
  cases h with
  | ended =>
    subst hall
    exact ⟨'\n' :: unlines ls, unlines ls, unlines_cons line ls, .ended ls, .inl rfl⟩
  | unended front last =>
    cases front with
    | nil =>
      cases hall
      exact ⟨[], [], (List.append_nil _).symm, .ended [], .inr ⟨rfl, rfl⟩⟩
    | cons first front =>
      cases hall
      refine ⟨'\n' :: (unlines front ++ last), _, ?_, .unended front last, .inl rfl⟩
      rw [unlines_cons, List.append_assoc, List.cons_append]

theorem Spells.eq_nil {text : List Char} (h : Spells [] text) : text = [] := by
  generalize hall : ([] : List (List Char)) = all at h
  cases h with
  | ended =>
    subst hall
    rfl
  | unended front last => cases front <;> cases hall

theorem newline_not_mem_cons {c : Char} {line : List Char} (hc : c ≠ '\n') (h : '\n' ∉ line) :
    '\n' ∉ c :: line :=
  List.not_mem_cons_of_ne_of_not_mem (Ne.symm hc) h

theorem spells_linesFrom {line : List Char} (h : '\n' ∉ line) (cs : List Char) :
    Spells (linesFrom [] line cs) (joinBreaks (line.reverse ++ cs)) := by
  induction cs generalizing line with
  | nil =>
    rw [List.append_nil, joinBreaks_of_not_mem (by simpa using h), linesFrom]
    cases line with
    | nil => exact .ended []
    | cons c line => exact .unended [] (c :: line).reverse
  | cons c cs ih =>
    by_cases hc : c = '\n'
    · subst hc
      rw [joinBreaks_append_newline (by simpa using h), List.reverse_reverse, linesFrom,
        if_pos rfl, linesFrom_eq]
      exact (ih List.not_mem_nil).cons (closeLine line)
    · rw [linesFrom, if_neg hc, List.append_cons, ← List.reverse_cons]
      exact ih (newline_not_mem_cons hc h)

/-- A text without its carriage returns before line feeds is its lines. -/
theorem spells_lines (text : List Char) : Spells (lines text) (joinBreaks text) :=
  spells_linesFrom (by simp) text

theorem newline_not_mem_closeLine {line : List Char} (h : '\n' ∉ line) : '\n' ∉ closeLine line := by
  unfold closeLine
  split
  · intro hmem
    exact h (.tail _ (List.mem_reverse.1 hmem))
  · simpa using h

theorem newline_not_mem_of_mem_linesFrom {line cs l : List Char} (h : '\n' ∉ line)
    (hl : l ∈ linesFrom [] line cs) : '\n' ∉ l := by
  induction cs generalizing line with
  | nil =>
    rw [linesFrom] at hl
    cases line with
    | nil => cases hl
    | cons c line =>
      rw [List.mem_singleton.1 hl, List.mem_reverse]
      exact h
  | cons c cs ih =>
    by_cases hc : c = '\n'
    · rw [linesFrom, if_pos hc, linesFrom_eq] at hl
      rcases List.mem_cons.1 hl with rfl | hl
      · exact newline_not_mem_closeLine h
      · exact ih List.not_mem_nil hl
    · rw [linesFrom, if_neg hc] at hl
      exact ih (newline_not_mem_cons hc h) hl

/-- No line has a line feed in it. -/
theorem newline_not_mem_of_mem_lines {text l : List Char} (hl : l ∈ lines text) : '\n' ∉ l :=
  newline_not_mem_of_mem_linesFrom (by simp) hl

/-! ## Around a character -/

theorem joinBreaks_append {z : List Char} (hz : z.head? ≠ some '\n') (x : List Char) :
    joinBreaks (x ++ z) = joinBreaks x ++ joinBreaks z := by
  fun_induction joinBreaks x with
  | case1 x ih => exact congrArg ('\n' :: ·) ih
  | case2 c x hx ih =>
    have hxz : ∀ y, c = '\r' → x ++ z = '\n' :: y → False := by
      intro y hc hy
      cases x with
      | nil => exact hz (by rw [List.nil_append] at hy; rw [hy]; rfl)
      | cons d x => exact hx x hc (by rw [(List.cons.inj hy).1])
    rw [List.cons_append, joinBreaks.eq_2 c (x ++ z) hxz, ih]
    rfl
  | case3 => rfl

theorem closeLine_append {line : List Char} (h : line.head? ≠ some '\r') (back : List Char) :
    closeLine (back ++ line) = line.reverse ++ closeLine back := by
  cases back with
  | nil =>
    cases line with
    | nil => rfl
    | cons c line =>
      have hc : c ≠ '\r' := fun e => h (congrArg some e)
      simp [closeLine, hc]
  | cons d back =>
    by_cases hd : d = '\r'
    · subst hd
      simp [closeLine]
    · simp [closeLine, hd]

theorem linesFrom_append_of_not_mem {back : List Char} (h : '\n' ∉ back) (line cs : List Char) :
    linesFrom [] line (back ++ cs) = linesFrom [] (back.reverse ++ line) cs := by
  induction back generalizing line with
  | nil => rfl
  | cons d back ih =>
    have hd : d ≠ '\n' := fun e => h (e ▸ .head _)
    rw [List.cons_append, linesFrom, if_neg hd, ih fun hmem => h (.tail _ hmem)]
    simp

/-- The lines up to a place: those that have ended and the beginning of another one. -/
theorem exists_linesFrom_append {line : List Char} (h : '\n' ∉ line) (x : List Char) :
    ∃ pre front, joinBreaks (line.reverse ++ x) = unlines pre ++ front ∧
      ∀ y, linesFrom [] line (x ++ y) = pre ++ linesFrom [] front.reverse y := by
  induction x generalizing line with
  | nil =>
    refine ⟨[], line.reverse, ?_, fun y => by rw [List.reverse_reverse]; rfl⟩
    rw [List.append_nil, joinBreaks_of_not_mem (by simpa using h)]
    rfl
  | cons c x ih =>
    by_cases hc : c = '\n'
    · subst hc
      obtain ⟨pre, front, hjoin, hlines⟩ := ih List.not_mem_nil
      refine ⟨closeLine line :: pre, front, ?_, fun y => ?_⟩
      · rw [joinBreaks_append_newline (by simpa using h), List.reverse_reverse, unlines_cons,
          List.append_assoc, List.cons_append, ← hjoin]
        rfl
      · rw [List.cons_append, linesFrom, if_pos rfl, linesFrom_eq, hlines]
        rfl
    · obtain ⟨pre, front, hjoin, hlines⟩ := ih (newline_not_mem_cons hc h)
      refine ⟨pre, front, ?_, fun y => ?_⟩
      · rw [List.append_cons, ← List.reverse_cons, hjoin]
      · rw [List.cons_append, linesFrom, if_neg hc, hlines]

/-- The first line of a text, if its line feed stands right behind it. -/
theorem lines_append_cons {line : List Char} (h : '\n' ∉ line) (hreturn : line.getLast? ≠ some '\r')
    (cs : List Char) : lines (line ++ '\n' :: cs) = line :: lines cs := by
  have hhead : line.reverse.head? ≠ some '\r' := by rwa [List.head?_reverse]
  have hclose := closeLine_append hhead []
  rw [List.nil_append, List.reverse_reverse] at hclose
  rw [lines, linesFrom_append_of_not_mem h, linesFrom, if_pos rfl, linesFrom_eq, List.append_nil,
    hclose]
  exact congrArg (· :: lines cs) (List.append_nil line)

/-- The lines from a place on: the end of one that has begun and those behind it. Where nothing has
begun, these are the lines of the text, unless there is no text. -/
theorem exists_linesFrom_cons (y : List Char) :
    ∃ back post, Spells (back :: post) (joinBreaks y) ∧
      (lines y = back :: post ∨ y = [] ∧ back = [] ∧ post = []) ∧
      ∀ c line, c ≠ '\n' → c ≠ '\r' →
        linesFrom [] line (c :: y) = (line.reverse ++ c :: back) :: post := by
  by_cases hy : '\n' ∈ y
  · obtain ⟨back, y, rfl, hback⟩ := List.eq_append_cons_of_mem hy
    refine ⟨closeLine back.reverse, lines y, ?_, .inl ?_, fun c line hc hcr => ?_⟩
    · rw [joinBreaks_append_newline hback]
      exact (spells_lines y).cons _
    · rw [lines, linesFrom_append_of_not_mem hback, linesFrom, if_pos rfl, linesFrom_eq, ← lines,
        List.append_nil]
      rfl
    · have hhead : (c :: line).head? ≠ some '\r' := fun e => hcr (Option.some.inj e)
      rw [linesFrom, if_neg hc, linesFrom_append_of_not_mem hback, linesFrom, if_pos rfl,
        linesFrom_eq, closeLine_append hhead, ← lines]
      simp
  · refine ⟨y, [], ?_, ?_, fun c line hc _ => ?_⟩
    · rw [joinBreaks_of_not_mem hy]
      exact .unended [] y
    · rcases List.eq_nil_or_concat y with rfl | ⟨front, d, hconcat⟩
      · exact .inr ⟨rfl, rfl, rfl⟩
      · refine .inl ?_
        rw [lines, ← List.append_nil y, linesFrom_append_of_not_mem hy]
        simp [linesFrom, hconcat]
    · rw [linesFrom, if_neg hc, ← List.append_nil y, linesFrom_append_of_not_mem hy]
      simp [linesFrom]

end Reparse.Text
