import Reparse.Proofs.Layout.Recovery

/-!
Indentations of one character. Where the lines on which logical lines begin are indented by spaces
alone, or by tabs alone, the two measures of these indentations are in a fixed proportion, and so
are those of every indentation that is open, whether a header has opened it or a line that met no
outer one. Measures in proportion compare alike, so no use of tabs and spaces is inconsistent.
-/

namespace Reparse

namespace Layout

/-! ## Proportion -/

namespace Indent

/-- The first measure is so many times the second. -/
def InProportion (n : Nat) (w : Indent) : Prop :=
  w.column = n * w.narrow

theorem inProportion_ground (n : Nat) : ground.InProportion n := rfl

variable {n : Nat} {w w' : Indent}

theorem InProportion.narrow_lt (h : w.InProportion n) (h' : w'.InProportion n)
    (hlt : w.column < w'.column) : w.narrow < w'.narrow := by
  unfold InProportion at h h'
  rw [h, h'] at hlt
  exact Nat.lt_of_mul_lt_mul_left hlt

theorem InProportion.narrow_eq (hn : 0 < n) (h : w.InProportion n) (h' : w'.InProportion n)
    (heq : w.column = w'.column) : w.narrow = w'.narrow := by
  unfold InProportion at h h'
  rw [h, h'] at heq
  exact Nat.eq_of_mul_eq_mul_left hn heq

/-- How many columns the character reaches at most. -/
def reach (c : Char) : Nat :=
  if c = '\t' then 8 else 1

theorem reach_pos (c : Char) : 0 < reach c := by
  unfold reach
  split <;> decide

/-- A tab behind nothing but tabs takes eight columns. -/
theorem InProportion.extend? {c : Char} (h : w.InProportion (reach c))
    (hext : w.extend? c = some w') (hc : c = ' ' ∨ c = '\t') : w'.InProportion (reach c) := by
  have hspace : reach ' ' = 1 := rfl
  have htab : reach '\t' = 8 := rfl
  unfold InProportion at h ⊢
  rcases hc with rfl | rfl
  · cases hext
    rw [hspace] at h ⊢
    dsimp only
    omega
  · cases hext
    rw [htab] at h ⊢
    dsimp only
    omega

end Indent

/-- The line is indented by nothing but the character. -/
def IndentedBy (c : Char) (line : List Char) : Prop :=
  ∀ d ∈ line.takeWhile indents, d = c

theorem IndentedBy.inProportion_measure {c : Char} (hc : c = ' ' ∨ c = '\t') {line : List Char}
    (h : IndentedBy c line) : (Indent.measure line).1.InProportion (Indent.reach c) := by
  have hfrom : ∀ (w : Indent) n, w.InProportion (Indent.reach c) →
      (Indent.measureFrom w n line).1.InProportion (Indent.reach c) := by
    induction line with
    | nil => exact fun _ _ hw => hw
    | cons d line ih =>
      intro w n hw
      rw [Indent.measureFrom]
      cases hext : w.extend? d with
      | none => exact hw
      | some w' =>
        have hd := Indent.indents_of_extend? hext
        unfold IndentedBy at h ih
        rw [List.takeWhile_cons_of_pos hd, List.forall_mem_cons] at h
        obtain ⟨rfl, h⟩ := h
        exact ih h w' (n + 1) (hw.extend? hext hc)
  exact hfrom .ground 0 (Indent.inProportion_ground _)

/-! ## Indentations that are open -/

/-- The event is not that tabs and spaces are used inconsistently. -/
def Event.isConsistent : Event → Bool
  | fault _ f => f != .mixedIndent
  | _ => true

theorem Event.isConsistent_of_isOfCode (e : Event) (h : e.isOfCode = true) :
    e.isConsistent = true := by
  cases e with
  | fault range f => cases f <;> first | rfl | cases h
  | _ => rfl

namespace State

/-- All indentations that are open are in proportion, and so far tabs and spaces have been used
consistently. -/
structure InProportion (n : Nat) (s : State) : Prop where
  levels : ∀ w ∈ s.levels, w.InProportion n
  events : s.events.all Event.isConsistent = true

variable {n : Nat} {s : State}

theorem inProportion_level {levels : List Indent} (h : ∀ w ∈ levels, w.InProportion n) :
    (level levels).InProportion n := by
  cases levels with
  | nil => exact Indent.inProportion_ground n
  | cons top levels => exact h top (.head _)

theorem InProportion.emit {t : State} (h : t.InProportion n) {range : Range} {f : Fault}
    (hf : f ≠ .mixedIndent) : (t.emit (.fault range f)).InProportion n where
  levels := h.levels
  events := by
    rw [State.emit, List.all_cons, h.events, Bool.and_true]
    exact bne_iff_ne.2 hf

theorem InProportion.reportMissing (h : s.InProportion n) : s.reportMissing.InProportion n := by
  unfold State.reportMissing
  split
  · exact h.emit (by decide)
  · exact h

theorem InProportion.indentTo (h : s.InProportion n) {w : Indent} (hw : w.InProportion n)
    (hfurther : (level s.levels).column < w.column) (range : Range) :
    (s.indentTo w range).InProportion n where
  levels := by
    unfold State.indentTo
    dsimp only
    rw [levels_faultIf, levels_faultIf]
    exact List.forall_mem_cons.2 ⟨hw, h.levels⟩
  events := by
    have hnarrow := (inProportion_level h.levels).narrow_lt hw hfurther
    have hunexpected : (s.faultIf s.header.isNone range .unexpectedIndent).InProportion n := by
      unfold faultIf
      split
      · exact h.emit (by decide)
      · exact h
    unfold State.indentTo
    dsimp only
    rw [decide_eq_false (Nat.not_le.2 hnarrow)]
    exact hunexpected.events

/-- An indentation that meets none of those that are open is opened, in proportion to them. -/
theorem InProportion.dedentTo (hn : 0 < n) (h : s.InProportion n) {w : Indent}
    (hw : w.InProportion n) (range : Range) : (s.dedentTo w range).InProportion n := by
  have hleft : ∀ t ∈ s.levels.dropWhile fun t => w.column < t.column, t.InProportion n :=
    fun t ht => h.levels t ((List.dropWhile_sublist _).subset ht)
  rw [dedentTo_eq]
  dsimp only
  split
  · refine ⟨List.forall_mem_cons.2 ⟨hw, hleft⟩, ?_⟩
    exact (h.reportMissing.emit (f := .unindentMismatch) (by decide)).events
  · rename_i hmeets
    have hnarrow := hw.narrow_eq hn (inProportion_level hleft) (not_ne_iff.1 hmeets)
    refine ⟨hleft, ?_⟩
    rw [hnarrow, bne_self_eq_false]
    exact h.reportMissing.events

theorem InProportion.indent (hn : 0 < n) (h : s.InProportion n) {w : Indent}
    (hw : w.InProportion n) (range : Range) : (s.indent w range).InProportion n := by
  unfold State.indent
  split
  · rename_i hfurther
    exact h.indentTo hw hfurther range
  · exact h.dedentTo hn hw range

/-- Code has no part in indentation. -/
theorem InProportion.readCode (h : s.InProportion n) (d : Draft) (pos : Position)
    (line : List Char) : (s.readCode d pos line).InProportion n where
  levels := by
    rw [levels_readCode]
    exact h.levels
  events :=
    ((s.brought_readCode d pos line).all_eq Event.isConsistent_of_isOfCode).trans h.events

/-- A line matters only if a logical line begins on it. -/
theorem InProportion.readLine (hn : 0 < n) (h : s.InProportion n) (row : Nat) {line : List Char}
    (hline : s.draft = none → isCodeLine line = true → (Indent.measure line).1.InProportion n) :
    (s.readLine row line).InProportion n := by
  rcases s.readLine_cases row line with ⟨d, -, hread⟩ | ⟨hnone, ⟨-, hread⟩ | ⟨hcode, hread⟩⟩
  · rw [hread]
    exact h.readCode ..
  · rw [hread]
    have hcomment := (s.brought_comment? row line).all_eq Event.isConsistent_of_isOfCode
    exact ⟨h.levels, hcomment.trans h.events⟩
  · rw [hread]
    exact (h.indent hn (hline hnone hcode) _).readCode ..

theorem InProportion.finish (h : s.InProportion n) :
    s.finish.all Event.isConsistent = true := by
  have hopen := (s.brought_abandonOpen.all_eq Event.isConsistent_of_isOfCode).trans h.events
  rw [finish_eq, List.all_reverse]
  unfold State.reportMissing
  split
  · rw [State.emit, List.all_cons, hopen]
    rfl
  · exact hopen

/-! ## Lines on which logical lines begin -/

/-- The lines of the text on which the logical lines so far begin, that of the unfinished one
first. -/
def starts (s : State) : List Nat :=
  s.ranges.map fun r => r.start.line

theorem starts_eq (s : State) : s.starts = s.heads.map fun head => head.1.line := by
  rw [starts, ranges_eq, heads, List.map_map, List.map_map]
  rfl

theorem starts_readLine (s : State) (row : Nat) (line : List Char) :
    (s.readLine row line).starts =
      if s.draft = none ∧ isCodeLine line = true then row :: s.starts else s.starts := by
  rw [starts_eq, starts_eq, heads_readLine, beginning?]
  split <;> rfl

end State

/-- The logical lines of the text begin on lines that are indented by nothing but the character. -/
def UniformlyIndented (c : Char) (text : List Char) : Prop :=
  ∀ l ∈ logicalLines text, ∀ line ∈ (Text.lines text)[l.range.start.line]?, IndentedBy c line

instance (c : Char) (text : List Char) : Decidable (UniformlyIndented c text) :=
  decidable_of_iff
    (((logicalLines text).all fun l => (Text.lines text)[l.range.start.line]?.all fun line =>
      (line.takeWhile indents).all (· == c)) = true)
    (by simp [UniformlyIndented, IndentedBy, Option.all_eq_true])

/-- All lines on which logical lines begin are remembered, so what holds of those of the whole text
holds of those met so far. -/
theorem UniformlyIndented.inProportion {c : Char} (hc : c = ' ' ∨ c = '\t') {text : List Char}
    (h : UniformlyIndented c text) :
    ((State.initial.readLines 0 (Text.lines text)).InProportion (Indent.reach c)) := by
  have hrun : (∀ row ∈ (State.initial.readLines 0 (Text.lines text)).starts,
        ∀ line ∈ (Text.lines text)[row]?, IndentedBy c line) →
      (State.initial.readLines 0 (Text.lines text)).InProportion (Indent.reach c) := by
    refine State.readLines_induction (motive := fun _ s =>
      (∀ row ∈ s.starts, ∀ line ∈ (Text.lines text)[row]?, IndentedBy c line) →
        s.InProportion (Indent.reach c)) ?_ ?_
    · intro row s line hline ih hstarts
      rw [State.starts_readLine] at hstarts
      split at hstarts
      · rename_i hbegins
        obtain ⟨hrow, hstarts⟩ := List.forall_mem_cons.1 hstarts
        exact (ih hstarts).readLine (Indent.reach_pos c) row fun _ _ =>
          (hrow line hline).inProportion_measure hc
      · rename_i hgoes
        exact (ih hstarts).readLine (Indent.reach_pos c) row fun hnone hcode =>
          absurd ⟨hnone, hcode⟩ hgoes
    · exact fun _ => ⟨nofun, rfl⟩
  refine hrun ?_
  intro row hrow
  obtain ⟨r, hr, rfl⟩ := List.mem_map.1 hrow
  obtain ⟨l, hl, rfl⟩ := List.mem_map.1 hr
  refine h l ?_
  rw [logicalLines, scan, State.line?_finish]
  exact List.mem_reverse.2 hl

/-- That tabs and spaces are used inconsistently is reported only where it is found. -/
theorem isReportOf_mixedIndent_of_isConsistent {options : Options} {finder : TaskComment.Finder}
    {e : Event} (he : e.isConsistent = true) {d : Diagnostic}
    (hd : d ∈ e.diagnostics options finder) : d.isReportOf .mixedIndent = false := by
  have hreport : ∀ range f, f ≠ .mixedIndent → d ∈ Event.report options range f →
      d.isReportOf .mixedIndent = false := by
    intro range f hf hd
    obtain ⟨severity, rfl⟩ := Event.eq_of_mem_report hd
    have hmessage : f.message ≠ Fault.mixedIndent.message :=
      fun h => hf ((Fault.message_eq_iff (.head _)).1 h)
    simp [Diagnostic.isReportOf, hmessage]
  cases e with
  | comment start text => simp [Diagnostic.isReportOf, Event.source_of_mem_comment hd]
  | fault range f => exact hreport range f (bne_iff_ne.1 he) hd
  | line l =>
    obtain ⟨f, hf, hd⟩ := List.mem_flatMap.1 hd
    refine hreport l.range f ?_ hd
    rw [LogicalLine.eq_of_mem_faults hf]
    decide

end Layout

/-- Where the lines on which logical lines begin are all indented by spaces alone, or all by tabs
alone, no report says that tabs and spaces are used inconsistently, whatever else is wrong with the
indentation. -/
theorem mixedIndent_not_reported (content : ByteArray) (options : Options) {c : Char}
    (hc : c = ' ' ∨ c = '\t') (h : Layout.UniformlyIndented c (decodeText content)) :
    ∀ d ∈ (parse content options).diagnostics, d.isReportOf .mixedIndent = false := by
  have hscan := (h.inProportion hc).finish
  intro d hd
  change d ∈ Layout.diagnostics options (Layout.scan (Text.lines (decodeText content))) at hd
  rw [Layout.diagnostics_eq] at hd
  split at hd
  · obtain ⟨e, he, hd⟩ := List.mem_flatMap.1 (List.mem_mergeSort.1 hd)
    exact Layout.isReportOf_mixedIndent_of_isConsistent (List.all_eq_true.1 hscan e he) hd
  · cases hd

/-- The lines on which logical lines begin are indented by tabs alone. The second meets no outer
indentation and the third is indented too far; a string and a comment have spaces before them. -/
def tabbedText : ByteArray :=
  "if x:\n\t\ty = ('',\n  \t '')\n \t# y\n\tz = 3\n\t\t\tw = 4\n".toUTF8

theorem mixedIndent_not_reported_tabbedText :
    Layout.UniformlyIndented '\t' (decodeText tabbedText) ∧
      ((parse tabbedText .standard).diagnostics.map Diagnostic.message).Perm
        ["unindent does not match any outer indentation level", "unexpected indent"] ∧
      (∀ d ∈ (parse tabbedText .standard).diagnostics, d.isReportOf .mixedIndent = false) ∧
      ¬Layout.UniformlyIndented '\t' (decodeText mixedBlock) ∧
      ∃ d ∈ (parse mixedBlock .standard).diagnostics, d.isReportOf .mixedIndent = true := by
  have htabbed : Layout.UniformlyIndented '\t' (decodeText tabbedText) := by decide +kernel
  have hmixed : ⟨⟨⟨2, 0⟩, ⟨2, 8⟩⟩, .warning, .python, Fault.mixedIndent.message⟩ ∈
      (parse mixedBlock .standard).diagnostics := List.mem_mergeSort.2 (by decide +kernel)
  refine ⟨htabbed, ?_, mixedIndent_not_reported tabbedText .standard (.inr rfl) htabbed,
    by decide +kernel, _, hmixed, by decide⟩
  exact ((List.mergeSort_perm _ _).map _).trans (by decide +kernel)

end Reparse
