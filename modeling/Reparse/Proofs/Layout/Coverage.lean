import Reparse.Proofs.Layout.BlockReports
import Reparse.Proofs.Layout.Ranges

/-!
What the ranges of statements cover. The logical lines stand one below the other, each as far as its
last character that is neither blank nor in a comment; so every such character is in the range of a
logical line, and the statements of that line, if it has any, have the same range.
-/

namespace Reparse

/-- The range reaches over what is between two places. -/
def Range.Covers (r : Range) (p q : Position) : Prop :=
  r.start.precedes p ∧ q.precedes r.stop

instance (r : Range) (p q : Position) : Decidable (r.Covers p q) :=
  inferInstanceAs (Decidable (_ ∧ _))

/-- A range that reaches further covers no less. -/
theorem Range.Covers.reach {r r' : Range} {p q : Position} (h : r.Covers p q)
    (hstart : r'.start = r.start) (hstop : r.stop.precedes r'.stop) : r'.Covers p q :=
  ⟨hstart ▸ h.1, Position.precedes_trans h.2 hstop⟩

namespace Layout

/-- The place is in a comment: one begins on its line, and not behind it. (A comment goes on to the
end of its line.) -/
def InComment (ts : List Token) (p : Position) : Prop :=
  ∃ c ∈ ts.filterMap Token.comment?, c.1.line = p.line ∧ c.1.column ≤ p.column

instance (ts : List Token) (p : Position) : Decidable (InComment ts p) :=
  inferInstanceAs (Decidable (∃ c ∈ ts.filterMap Token.comment?, _ ∧ _))

namespace InComment

variable {ts ts' : List Token} {p : Position}

theorem append_left (h : InComment ts p) : InComment (ts ++ ts') p := by
  obtain ⟨c, hc, hp⟩ := h
  exact ⟨c, List.filterMap_append ▸ List.mem_append_left _ hc, hp⟩

theorem append_right (h : InComment ts' p) : InComment (ts ++ ts') p := by
  obtain ⟨c, hc, hp⟩ := h
  exact ⟨c, List.filterMap_append ▸ List.mem_append_right _ hc, hp⟩

end InComment

/-! ## Pieces -/

/-- A character of a text in two parts is in one of them. -/
theorem append_eq_append_cons {a b front back : List Char} {c : Char}
    (h : a ++ b = front ++ c :: back) :
    (∃ mid, front = a ++ mid ∧ b = mid ++ c :: back) ∨ ∃ mid, a = front ++ c :: mid := by
  rcases List.append_eq_append_iff.1 h with ⟨mid, hfront, hb⟩ | ⟨mid, ha, hb⟩
  · exact .inl ⟨mid, hfront, hb⟩
  · cases mid with
    | nil => exact .inl ⟨[], by rw [ha, List.append_nil, List.append_nil], hb.symm⟩
    | cons d mid =>
      cases hb
      exact .inr ⟨mid, ha⟩

namespace Draft

variable {d : Draft} {pos : Position}

/-- Reading on, a logical line reaches no less far, and not behind what has been read. -/
theorem precedes_stop_readAll (h : d.stop.precedes pos) (events : List Event) (ps : List Piece) :
    d.stop.precedes (d.readAll pos events ps).1.stop ∧
      (d.readAll pos events ps).1.stop.line ≤ pos.line := by
  induction ps generalizing d pos events with
  | nil => exact ⟨Position.precedes_refl _, Position.line_le_of_precedes h⟩
  | cons p ps ih =>
    obtain ⟨hstop, hnext⟩ := precedes_stop_read h p
    obtain ⟨hreach, hline⟩ := ih hnext ((d.event? pos p).toList ++ events)
    rw [readAll_cons]
    exact ⟨Position.precedes_trans hstop hreach, line_next pos p ▸ hline⟩

/-- A character of a piece that is neither blank nor in a comment is reached. -/
theorem reaches_read (d : Draft) (pos : Position) {p : Piece} {front mid : List Char} {c : Char}
    (hchars : p.chars = front ++ c :: mid) (hblank : Text.isBlank c = false) :
    InComment (p.tokens pos) (pos.right (Text.width16 front)) ∨
      (pos.right (Text.width16 (front ++ [c]))).precedes (d.read pos p).stop := by
  have hmem : c ∈ p.chars := by simp [hchars]
  by_cases hcomment : ∀ text, p ≠ .comment text
  · refine .inr ?_
    have hwidth : Text.width16 p.chars = Text.width16 (front ++ [c]) + Text.width16 mid := by
      rw [← Text.width16_append, hchars, List.append_assoc]
      rfl
    rw [d.stop_read_of_mem pos hcomment hmem hblank, hwidth, ← right_right]
    exact precedes_right _ _
  · obtain ⟨text, rfl⟩ : ∃ text, p = .comment text := by simpa using hcomment
    exact .inl ⟨(pos, text), .head _, rfl, Nat.le_add_right _ _⟩

/-- A character of the line that is neither blank nor in a comment is reached. -/
theorem reaches_readAll {mode : Option Quote} {line : List Char} (hmode : d.mode = mode)
    (hstop : d.stop.precedes pos) (events : List Event) {front back : List Char} {c : Char}
    (hline : line = front ++ c :: back) (hblank : Text.isBlank c = false) :
    InComment (pieceTokens pos (pieces mode line)) (pos.right (Text.width16 front)) ∨
      (pos.right (Text.width16 (front ++ [c]))).precedes
        (d.readAll pos events (pieces mode line)).1.stop := by
  induction mode, line using pieces_induction generalizing d pos events front with
  | nil mode => simp at hline
  | cons mode c' cs p rest _ hchars hlast ih =>
    have hnext := (precedes_stop_read hstop p).2
    rw [readAll_cons, pieceTokens]
    rcases append_eq_append_cons (hchars.trans hline) with ⟨mid, rfl, hrest⟩ | ⟨mid, hmid⟩
    · have hp : p.isLast = false := by
        rw [Bool.eq_false_iff]
        intro hp
        rw [hlast hp] at hrest
        simp at hrest
      have hright : ∀ cs, (p.next pos).right (Text.width16 cs) =
          pos.right (Text.width16 (p.chars ++ cs)) := by
        intro cs
        rw [Piece.next_of_isLast_eq_false pos hp, right_right, Text.width16_append]
      have hmode' : (d.read pos p).mode = p.after mode := by rw [mode_read, hmode]
      have hreach := ih hmode' hnext ((d.event? pos p).toList ++ events) hrest
      rw [hright, hright, ← List.append_assoc] at hreach
      exact hreach.imp_left InComment.append_right
    · refine (d.reaches_read pos hmid hblank).imp InComment.append_left ?_
      exact fun h => Position.precedes_trans h (precedes_stop_readAll hnext _ _).1

end Draft

/-! ## Lines -/

namespace State

/-- The ranges of the logical lines, newest first, and first of all that of the unfinished one, as
far as it reaches. -/
def ranges (s : State) : List Range :=
  (s.draft.toList.map Draft.finish ++ s.lines).map LogicalLine.range

/-- Where the logical lines are and how far in they begin, in the same order. -/
def places (s : State) : List (Range × Nat) :=
  (s.draft.toList.map Draft.finish ++ s.lines).map fun l => (l.range, l.indent)

theorem ranges_eq (s : State) : s.ranges = s.places.map Prod.fst := by
  rw [ranges, places, List.map_map]
  rfl

/-- Behind a line of code there is one more logical line, finished or not. -/
theorem places_endLine (s : State) (d : Draft) (pos : Position) (last : Option Piece) :
    (s.endLine d pos last).places =
      (⟨d.start, d.stop⟩, d.indent) :: s.lines.map fun l => (l.range, l.indent) := by
  have hbreak : (d.breakLine last).start = d.start ∧ (d.breakLine last).stop = d.stop := by
    unfold Draft.breakLine
    split <;> exact ⟨rfl, rfl⟩
  have hlines := s.lines_reportBroken (d.broken? last) pos
  rw [← hlines, ← hbreak.1, ← hbreak.2, ← d.indent_breakLine last, endLine_eq]
  dsimp only
  split <;> rfl

theorem places_readCode (s : State) (d : Draft) (pos : Position) (line : List Char) :
    (s.readCode d pos line).places =
      (⟨d.start, (d.readAll pos s.events (pieces d.mode line)).1.stop⟩, d.indent) ::
        s.lines.map fun l => (l.range, l.indent) := by
  have hlines := d.filterMap_line?_readAll pos s.events (pieces d.mode line)
  rw [readCode_eq, places_endLine, Draft.start_readAll, Draft.indent_readAll]
  exact congrArg (fun ls => _ :: ls.map fun l => (LogicalLine.range l, LogicalLine.indent l)) hlines

theorem ranges_readCode (s : State) (d : Draft) (pos : Position) (line : List Char) :
    (s.readCode d pos line).ranges =
      ⟨d.start, (d.readAll pos s.events (pieces d.mode line)).1.stop⟩ ::
        s.lines.map LogicalLine.range := by
  rw [ranges_eq, places_readCode, List.map_cons, List.map_map]
  rfl

end State

/-- What stands above a line is covered: a character that is neither blank nor in a comment is in one
of the ranges. -/
def CoveredAbove (ls : List (List Char)) (ts : List Token) (row : Nat) (ranges : List Range) :
    Prop :=
  ∀ i < row, ∀ front c back, ls[i]? = some (front ++ c :: back) → Text.isBlank c = false →
    InComment ts ⟨i, Text.width16 front⟩ ∨
      ∃ r ∈ ranges, r.Covers ⟨i, Text.width16 front⟩ ⟨i, Text.width16 (front ++ [c])⟩

/-- The ranges (newest first) stand one below the other. -/
def OneBelowTheOther (ranges : List Range) : Prop :=
  ranges.Pairwise fun below above => above.stop.line < below.start.line

/-- The reader is between two lines. Its logical lines stand one below the other and cover what has
been read. -/
structure State.Covers (ls : List (List Char)) (ts : List Token) (row : Nat) (s : State) : Prop where
  above : ∀ r ∈ s.ranges, r.start.line < row ∧ r.stop.line < row
  ordered : OneBelowTheOther s.ranges
  covered : CoveredAbove ls ts row s.ranges

/-- The reader is about to read code of a logical line at a place. Its logical lines stand one below
the other and cover what stands above. -/
structure State.CoversAt (ls : List (List Char)) (ts : List Token) (pos : Position) (s : State)
    (d : Draft) : Prop where
  start : d.start.precedes pos
  stop : d.stop.precedes pos
  above : ∀ r ∈ s.lines.map LogicalLine.range, r.start.line < pos.line ∧ r.stop.line < pos.line
  ordered : OneBelowTheOther (d.finish.range :: s.lines.map LogicalLine.range)
  covered : CoveredAbove ls ts pos.line (d.finish.range :: s.lines.map LogicalLine.range)

namespace State

variable {ls : List (List Char)} {ts : List Token} {s : State}

/-- Reading the code of a line covers it. -/
theorem CoversAt.readCode {pos : Position} {d : Draft} (h : s.CoversAt ls ts pos d)
    {front line : List Char} (hline : ls[pos.line]? = some (front ++ line))
    (hfront : ∀ c ∈ front, Text.isBlank c = true) (hcolumn : pos.column = Text.width16 front) :
    (s.readCode d pos line).Covers ls (ts ++ d.codeTokens pos line) (pos.line + 1) := by
  obtain ⟨hreach, hstop⟩ := Draft.precedes_stop_readAll h.stop s.events (pieces d.mode line)
  have hranges := s.ranges_readCode d pos line
  generalize hr : (⟨d.start, (d.readAll pos s.events (pieces d.mode line)).1.stop⟩ : Range) = r at *
  refine ⟨?_, ?_, ?_⟩
  · rw [hranges]
    refine List.forall_mem_cons.2 ⟨?_, ?_⟩
    · rw [← hr]
      exact ⟨Nat.lt_succ_of_le (Position.line_le_of_precedes h.start), Nat.lt_succ_of_le hstop⟩
    · intro r' hr'
      exact (h.above r' hr').imp Nat.lt_succ_of_lt Nat.lt_succ_of_lt
  · rw [hranges, ← hr]
    obtain ⟨hfirst, hrest⟩ := List.pairwise_cons.1 h.ordered
    exact List.pairwise_cons.2 ⟨hfirst, hrest⟩
  · intro i hi front' c back hi' hblank
    rw [hranges]
    rcases Nat.lt_succ_iff_lt_or_eq.1 hi with hlt | rfl
    · refine (h.covered i hlt front' c back hi' hblank).imp InComment.append_left ?_
      rintro ⟨r', hr', hcovers⟩
      rcases List.mem_cons.1 hr' with rfl | hr'
      · refine ⟨r, .head _, hcovers.reach ?_ ?_⟩ <;> rw [← hr]
        · rfl
        · exact hreach
      · exact ⟨r', .tail _ hr', hcovers⟩
    · have hsplit : front ++ line = front' ++ c :: back :=
        Option.some.inj (hline.symm.trans hi')
      rcases append_eq_append_cons hsplit with ⟨mid, rfl, hmid⟩ | ⟨mid, rfl⟩
      · have hright : ∀ cs, (⟨pos.line, Text.width16 (front ++ cs)⟩ : Position) =
            pos.right (Text.width16 cs) := by
          intro cs
          rw [Text.width16_append, ← hcolumn]
          rfl
        rw [hright, List.append_assoc, hright]
        refine (Draft.reaches_readAll rfl h.stop s.events hmid hblank).imp ?_ ?_
        · exact fun h => h.append_left.append_right
        · intro hend
          refine ⟨r, .head _, ?_⟩
          rw [← hr]
          exact ⟨Position.precedes_trans h.start (precedes_right _ _), hend⟩
      · have hmem := hfront c (by simp)
        rw [hblank] at hmem
        cases hmem

theorem coversAt_draft {row : Nat} (h : s.Covers ls ts row) {d : Draft} (hd : s.draft = some d) :
    s.CoversAt ls ts ⟨row, 0⟩ d := by
  have hranges : s.ranges = d.finish.range :: s.lines.map LogicalLine.range := by
    rw [ranges, hd]
    rfl
  obtain ⟨habove, hordered, hcovered⟩ := h
  rw [hranges] at habove hordered hcovered
  obtain ⟨⟨hstart, hstop⟩, habove⟩ := List.forall_mem_cons.1 habove
  exact ⟨Position.precedes_of_line_lt hstart, Position.precedes_of_line_lt hstop, habove, hordered,
    hcovered⟩

theorem coversAt_begin {row : Nat} (h : s.Covers ls ts row) (hnone : s.draft = none)
    (ts' : List Token) (w : Indent) (range : Range) (column : Nat) :
    (s.indent w range).CoversAt ls (ts ++ ts') ⟨row, column⟩ (.begin ⟨row, column⟩ w.column) := by
  have hranges : s.ranges = (s.indent w range).lines.map LogicalLine.range := by
    rw [ranges, hnone, lines_indent]
    rfl
  obtain ⟨habove, hordered, hcovered⟩ := h
  rw [hranges] at habove hordered hcovered
  refine ⟨Position.precedes_refl _, Position.precedes_refl _, habove, ?_, ?_⟩
  · exact List.pairwise_cons.2 ⟨fun r hr => (habove r hr).2, hordered⟩
  · intro i hi front c back hline hblank
    refine (hcovered i hi front c back hline hblank).imp InComment.append_left ?_
    rintro ⟨r, hr, hcovers⟩
    exact ⟨r, .tail _ hr, hcovers⟩

end State

theorem isBlank_of_indents {c : Char} (h : indents c = true) : Text.isBlank c = true := by
  simp only [indents, Bool.or_eq_true, beq_iff_eq] at h
  rcases h with (rfl | rfl) | rfl <;> rfl

/-- Where a line has no code, what is not blank is in its comment. -/
theorem inComment_of_findings {row : Nat} {front back : List Char} {c : Char}
    (hblank : Text.isBlank c = false) {ts : List Token}
    (hts : findings ts = (comment? row (front ++ c :: back)).toList.filterMap Event.token?) :
    InComment ts ⟨row, Text.width16 front⟩ := by
  obtain ⟨indentation, hline, hcolumn, hindents⟩ := Indent.measure_append (front ++ c :: back)
  rcases append_eq_append_cons hline.symm with ⟨mid, hfront, hmid⟩ | ⟨mid, rfl⟩
  · have hcomment : comment? row (front ++ c :: back) =
        some (.comment ⟨row, indentation.length⟩ (mid ++ c :: back)) := by
      rw [comment?, hcolumn, hmid]
      cases mid <;> rfl
    rw [hcomment] at hts
    have hmem : ⟨⟨row, indentation.length⟩, .comment (mid ++ c :: back)⟩ ∈ findings ts := by
      rw [hts]
      exact .head _
    refine ⟨(⟨row, indentation.length⟩, mid ++ c :: back), ?_, rfl, ?_⟩
    · exact List.mem_filterMap.2 ⟨_, (List.mem_filter.1 hmem).1, rfl⟩
    · dsimp only
      rw [hfront, Text.width16_append, width16_indent hindents]
      exact Nat.le_add_right _ _
  · have hindent := isBlank_of_indents (hindents c (by simp))
    rw [hblank] at hindent
    cases hindent

namespace State

variable {ls : List (List Char)} {ts : List Token} {s : State}

/-- Reading a line covers it. -/
theorem Covers.readLine {row : Nat} (h : s.Covers ls ts row) {line : List Char} {us : List Token}
    (hrow : ls[row]? = some line) (hline : s.Meets row line us) :
    (s.readLine row line).Covers ls (ts ++ us) (row + 1) := by
  cases hline with
  | code hd hread =>
    have hrow' : ls[row]? = some ([] ++ line) := hrow
    rw [hread]
    exact (coversAt_draft h hd).readCode hrow' nofun rfl
  | blank hnone _ hread _ hfound =>
    have hranges : (s.readLine row line).ranges = s.ranges := by
      rw [hread, ranges, lines_comment?]
      rfl
    refine ⟨?_, hranges ▸ h.ordered, ?_⟩
    · rw [hranges]
      exact fun r hr => (h.above r hr).imp Nat.lt_succ_of_lt Nat.lt_succ_of_lt
    · intro i hi front' c back hi' hblank
      rw [hranges]
      rcases Nat.lt_succ_iff_lt_or_eq.1 hi with hlt | rfl
      · exact (h.covered i hlt front' c back hi' hblank).imp_left InComment.append_left
      · obtain rfl : line = front' ++ c :: back := Option.some.inj (hrow.symm.trans hi')
        exact .inl (inComment_of_findings hblank hfound).append_right.append_right
  | @begin _ _ w hnone hindents hcut hread =>
    rw [hcut] at hrow
    rw [hread, ← List.append_assoc]
    exact (coversAt_begin h hnone _ w _ _).readCode hrow
      (fun c hc => isBlank_of_indents (hindents c hc)) (width16_indent hindents).symm

theorem covers_initial (ls : List (List Char)) : State.initial.Covers ls [] 0 :=
  ⟨nofun, .nil, nofun⟩

end State

/-! ## The whole text -/

/-- The reader ends with logical lines that cover the text. -/
theorem exists_covers (text : List Char) :
    ∃ ts, (State.initial.readLines 0 (Text.lines text)).Covers (Text.lines text) ts
        (Text.lines text).length ∧
      tokenize (Text.unlines (Text.lines text)) =
        ts ++ (State.initial.readLines 0 (Text.lines text)).mode.textEnd :=
  State.tokenize_readLines (fun _ hline => Text.newline_not_mem_of_mem_lines hline)
    (fun _ _ _ _ _ hrow hline h => h.readLine hrow hline) (State.covers_initial _)

/-- The logical lines of a text stand one below the other. -/
theorem pairwise_logicalLines (text : List Char) :
    (logicalLines text).Pairwise fun l l' => l.range.stop.line < l'.range.start.line := by
  obtain ⟨ts, hcovers, -⟩ := exists_covers text
  have hordered := hcovers.ordered
  rw [OneBelowTheOther, State.ranges, List.pairwise_map] at hordered
  rw [logicalLines, scan, State.line?_finish, List.pairwise_reverse]
  exact hordered

/-- What is neither blank nor in a comment is in the range of a logical line. -/
theorem exists_logicalLine_covers (text : List Char) {row : Nat} {front back : List Char} {c : Char}
    (hline : (Text.lines text)[row]? = some (front ++ c :: back)) (hblank : Text.isBlank c = false)
    (hcomment : ¬InComment (tokenize (Text.joinBreaks text)) ⟨row, Text.width16 front⟩) :
    ∃ l ∈ logicalLines text,
      l.range.Covers ⟨row, Text.width16 front⟩ ⟨row, Text.width16 (front ++ [c])⟩ := by
  obtain ⟨ts, hcovers, htokens⟩ := exists_covers text
  obtain ⟨hrow, -⟩ := List.getElem?_eq_some_iff.1 hline
  rcases hcovers.covered row hrow front c back hline hblank with hin | ⟨r, hr, hcovers⟩
  · refine absurd ?_ hcomment
    unfold InComment
    rw [filterMap_tokenize (fun _ => rfl) (fun _ _ => rfl), htokens]
    exact InComment.append_left hin
  · rw [State.ranges, List.mem_map] at hr
    obtain ⟨l, hl, rfl⟩ := hr
    refine ⟨l, ?_, hcovers⟩
    rw [logicalLines, scan, State.line?_finish, List.mem_reverse]
    exact hl

theorem mem_of_mem_segmentsFrom {depth : Nat} {segment s : List Char} {done : List (List Char)}
    {text : List Char} {c : Char} (hs : s ∈ segmentsFrom depth segment done text) (hc : c ∈ s) :
    c ∈ text ∨ c ∈ segment ∨ s ∈ done := by
  induction text generalizing depth segment done with
  | nil =>
    rw [segmentsFrom, List.mem_reverse] at hs
    rcases List.mem_cons.1 hs with rfl | hs
    · exact .inr (.inl (List.mem_reverse.1 hc))
    · exact .inr (.inr hs)
  | cons c' text ih =>
    rw [segmentsFrom] at hs
    split at hs
    · rcases ih hs with h | h | h
      · exact .inl (.tail _ h)
      · cases h
      · rcases List.mem_cons.1 h with rfl | h
        · exact .inr (.inl (List.mem_reverse.1 hc))
        · exact .inr (.inr h)
    · rcases ih hs with h | h | h
      · exact .inl (.tail _ h)
      · rcases List.mem_cons.1 h with rfl | h
        · exact .inl (.head _)
        · exact .inr (.inl h)
      · exact .inr (.inr h)

/-- A line that is blank has no statement. -/
theorem exists_not_isBlank_of_segments {text s : List Char} (hs : s ∈ segments text) :
    ∃ c ∈ text, Text.isBlank c = false := by
  obtain ⟨hs, hne⟩ := List.mem_filter.1 hs
  obtain ⟨s', hs', rfl⟩ := List.mem_map.1 hs
  by_contra hall
  have hblank : ∀ c ∈ s', Text.isBlank c = true := by
    intro c hc
    rcases mem_of_mem_segmentsFrom hs' hc with h | h | h
    · by_contra hc
      exact hall ⟨c, h, by simpa using hc⟩
    · cases h
    · cases h
  have hstart : Text.trimStart s' = [] := List.dropWhile_eq_nil_iff.2 hblank
  rw [Text.trim, hstart] at hne
  cases hne

/-- A statement has the range of its logical line, which is not blank. -/
theorem LogicalLine.of_mem_statements {l : LogicalLine} {version : LanguageVersion} {bind : Bool}
    {s : Statement} (hs : s ∈ l.statements version bind) :
    s.range = l.range ∧ ∃ c ∈ l.text, Text.isBlank c = false := by
  obtain ⟨sorted, hsorted, rfl⟩ := List.mem_map.1 hs
  obtain ⟨segment, hsegment, -⟩ := List.mem_map.1 hsorted
  exact ⟨rfl, exists_not_isBlank_of_segments hsegment⟩

/-- The statements of a text are those of its logical lines. -/
theorem statements_scan (options : Options) (text : List Char) :
    statements options (scan (Text.lines text)) =
      (logicalLines text).flatMap fun l => l.statements options.version options.bindNames := by
  have hevent : Event.statements options.version options.bindNames = fun e =>
      e.line?.toList.flatMap fun l => l.statements options.version options.bindNames := by
    funext e
    cases e with
    | line l => exact (List.append_nil _).symm
    | _ => rfl
  rw [statements, logicalLines, hevent, List.filterMap_eq_flatMap_toList, List.flatMap_assoc]

/-- The reports of an event stand where the event does. -/
theorem Event.isOn_of_mem_diagnostics {ls : List (List Char)} {e : Event} (he : e.IsOn ls)
    {options : Options} {finder : TaskComment.Finder} {d : Diagnostic}
    (hd : d ∈ e.diagnostics options finder) : d.range.IsOn ls := by
  cases e with
  | comment start text =>
    obtain ⟨hit, -, rfl⟩ := List.mem_map.1 hd
    exact he
  | fault range f =>
    obtain ⟨severity, rfl⟩ := eq_of_mem_report hd
    exact he
  | line l =>
    obtain ⟨f, -, hd⟩ := List.mem_flatMap.1 hd
    obtain ⟨severity, rfl⟩ := eq_of_mem_report hd
    exact he.1

/-- Every report stands on the text. -/
theorem isOn_of_mem_diagnostics {text : List Char} {options : Options} {d : Diagnostic}
    (hd : d ∈ diagnostics options (scan (Text.lines text))) : d.range.IsOn (Text.lines text) := by
  rw [diagnostics_eq] at hd
  split at hd
  · obtain ⟨e, he, hd⟩ := List.mem_flatMap.1 (List.mem_mergeSort.1 hd)
    exact Event.isOn_of_mem_diagnostics (isOn_scan _ e he) hd
  · cases hd

/-- So does every statement, and its range is not empty. -/
theorem isOn_of_mem_statements {text : List Char} {l : LogicalLine} (hl : l ∈ logicalLines text)
    {version : LanguageVersion} {bind : Bool} {s : Statement} (hs : s ∈ l.statements version bind) :
    s.range.IsOn (Text.lines text) ∧ s.range.start ≠ s.range.stop := by
  obtain ⟨hrange, htext⟩ := LogicalLine.of_mem_statements hs
  obtain ⟨e, he, hline⟩ := List.mem_filterMap.1 hl
  cases e with
  | line l' =>
    cases hline
    obtain ⟨hon, hfilled⟩ := isOn_scan _ _ he
    rw [hrange]
    exact ⟨hon, hfilled htext⟩
  | _ => cases hline

end Layout

/-- Every range of a report or of a statement runs from one place on the lines of the text to
another one not in front of it, and a statement's is not empty. Of two statements the later one
stands on lines below the earlier one, unless both have the same range. A character that is neither
blank nor in a comment is in the range of a statement, or else in that of a logical line that has no
statement. -/
theorem ranges_cover_code (content : ByteArray) (options : Options) :
    (∀ d ∈ (parse content options).diagnostics,
        d.range.IsOn (Text.lines (decodeText content))) ∧
      (∀ s ∈ (parse content options).outline.statements,
        s.range.IsOn (Text.lines (decodeText content)) ∧ s.range.start ≠ s.range.stop) ∧
      (parse content options).outline.statements.Pairwise
        (fun s s' => s.range = s'.range ∨ s.range.stop.line < s'.range.start.line) ∧
      ∀ row front c back,
        (Text.lines (decodeText content))[row]? = some (front ++ c :: back) →
        Text.isBlank c = false →
        ¬Layout.InComment (Layout.tokenize (Text.joinBreaks (decodeText content)))
          ⟨row, Text.width16 front⟩ →
        (∃ s ∈ (parse content options).outline.statements,
            s.range.Covers ⟨row, Text.width16 front⟩ ⟨row, Text.width16 (front ++ [c])⟩) ∨
          ∃ l ∈ Layout.logicalLines (decodeText content),
            l.range.Covers ⟨row, Text.width16 front⟩ ⟨row, Text.width16 (front ++ [c])⟩ ∧
              l.statements options.version options.bindNames = [] := by
  have hstatements : (parse content options).outline.statements =
      (Layout.logicalLines (decodeText content)).flatMap
        fun l => l.statements options.version options.bindNames :=
    Layout.statements_scan options (decodeText content)
  rw [hstatements]
  refine ⟨?_, ?_, ?_, ?_⟩
  · exact fun d hd => Layout.isOn_of_mem_diagnostics hd
  · intro s hs
    obtain ⟨l, hl, hs⟩ := List.mem_flatMap.1 hs
    exact Layout.isOn_of_mem_statements hl hs
  · rw [List.pairwise_flatMap]
    refine ⟨fun l _ => ?_, (Layout.pairwise_logicalLines _).imp ?_⟩
    · refine List.pairwise_of_forall_mem_list ?_
      intro s hs s' hs'
      exact .inl ((Layout.LogicalLine.of_mem_statements hs).1.trans
        (Layout.LogicalLine.of_mem_statements hs').1.symm)
    · intro l l' hlt s hs s' hs'
      rw [(Layout.LogicalLine.of_mem_statements hs).1, (Layout.LogicalLine.of_mem_statements hs').1]
      exact .inr hlt
  · intro row front c back hline hblank hcomment
    obtain ⟨l, hl, hcovers⟩ := Layout.exists_logicalLine_covers _ hline hblank hcomment
    cases hnone : l.statements options.version options.bindNames with
    | nil => exact .inr ⟨l, hl, hcovers, hnone⟩
    | cons s more =>
      have hs : s ∈ l.statements options.version options.bindNames := hnone ▸ .head _
      refine .inl ⟨s, List.mem_flatMap.2 ⟨l, hl, hs⟩, ?_⟩
      rw [(Layout.LogicalLine.of_mem_statements hs).1]
      exact hcovers

/-- A letter beyond the basic plane, in a logical line on two lines and in the comment behind it. -/
def surrogateText : ByteArray := "𝑥 = (𝑥,\n  2)  # 𝑥\n".toUTF8

/-- The letter takes two columns, and the comment is not in the range. -/
theorem surrogateText_covered :
    (parse surrogateText .standard).outline.statements.map Statement.range =
        [⟨⟨0, 0⟩, ⟨1, 4⟩⟩] ∧
      (Text.lines (decodeText surrogateText))[0]? =
        some ("𝑥 = (".toList ++ '𝑥' :: [',']) ∧
      Text.isBlank '𝑥' = false ∧
      ¬Layout.InComment (Layout.tokenize (Text.joinBreaks (decodeText surrogateText))) ⟨0, 6⟩ ∧
      ∃ s ∈ (parse surrogateText .standard).outline.statements, s.range.Covers ⟨0, 6⟩ ⟨0, 8⟩ := by
  obtain ⟨-, -, -, hcovered⟩ := ranges_cover_code surrogateText .standard
  have hranges : (parse surrogateText .standard).outline.statements.map Statement.range =
      [⟨⟨0, 0⟩, ⟨1, 4⟩⟩] := by decide +kernel
  have hline : (Text.lines (decodeText surrogateText))[0]? =
      some ("𝑥 = (".toList ++ '𝑥' :: [',']) := by decide +kernel
  have hblank : Text.isBlank '𝑥' = false := by decide
  have hcomment : ¬Layout.InComment
      (Layout.tokenize (Text.joinBreaks (decodeText surrogateText))) ⟨0, 6⟩ := by decide +kernel
  refine ⟨hranges, hline, hblank, hcomment, ?_⟩
  have hsome : ∀ l ∈ Layout.logicalLines (decodeText surrogateText),
      l.statements Options.standard.version Options.standard.bindNames ≠ [] := by decide +kernel
  rcases hcovered 0 _ _ _ hline hblank hcomment with hstatement | ⟨l, hl, -, hnone⟩
  · exact hstatement
  · exact absurd hnone (hsome l hl)

end Reparse
