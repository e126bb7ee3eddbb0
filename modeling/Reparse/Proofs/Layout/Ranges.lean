import Reparse.Proofs.Layout.Tokenized

/-!
Places on a text. Columns are counted on piece by piece, and every place that the reader keeps (where
a logical line begins and how far it reaches, where brackets and strings were opened, where a header
stands) is behind some first characters of a line of the text. So every event has its range on the
text, and the range runs forward.
-/

namespace Reparse

variable (ls : List (List Char))

/-- The place is on a line of the text, and this is left of the line behind it. -/
def Position.Before (p : Position) (rest : List Char) : Prop :=
  ∃ front, ls[p.line]? = some (front ++ rest) ∧ p.column = Text.width16 front

/-- The place is on a line of the text, behind some first characters of it. -/
def Position.IsOn (p : Position) : Prop :=
  ∃ rest, p.Before ls rest

/-- The range runs from a place on the text to another one that is not in front of it. -/
structure Range.IsOn (r : Range) : Prop where
  start : r.start.IsOn ls
  stop : r.stop.IsOn ls
  ordered : r.start.precedes r.stop

variable {ls}

theorem Text.width16_pos {cs : List Char} {c : Char} (h : c ∈ cs) : 0 < width16 cs := by
  obtain ⟨d, cs, rfl⟩ := List.exists_cons_of_ne_nil (List.ne_nil_of_mem h)
  rw [width16_cons]
  exact Nat.lt_of_lt_of_le (units16_pos d) (Nat.le_add_right _ _)

namespace Position

theorem Before.isOn {p : Position} {rest : List Char} (h : p.Before ls rest) : p.IsOn ls :=
  ⟨rest, h⟩

/-- Characters of the line take as many columns as they have code units. -/
theorem Before.right {p : Position} {cs rest : List Char} (h : p.Before ls (cs ++ rest)) :
    (p.right (Text.width16 cs)).Before ls rest := by
  obtain ⟨front, hline, hcolumn⟩ := h
  refine ⟨front ++ cs, ?_, ?_⟩
  · rw [List.append_assoc]
    exact hline
  · rw [Text.width16_append, ← hcolumn]
    rfl

theorem Before.wide {p : Position} {cs rest : List Char} (h : p.Before ls (cs ++ rest)) :
    (Range.wide p (Text.width16 cs)).IsOn ls :=
  ⟨h.isOn, h.right.isOn, Layout.precedes_right p _⟩

theorem line_le_of_precedes {p q : Position} (h : p.precedes q) : p.line ≤ q.line := by
  simp only [precedes, Bool.or_eq_true, Bool.and_eq_true, decide_eq_true_eq, beq_iff_eq] at h
  omega

theorem precedes_antisymm {p q : Position} (h : p.precedes q) (h' : q.precedes p) : p = q := by
  obtain ⟨line, column⟩ := p
  simp only [precedes, Bool.or_eq_true, Bool.and_eq_true, decide_eq_true_eq, beq_iff_eq] at h h'
  obtain ⟨rfl, rfl⟩ : line = q.line ∧ column = q.column := by omega
  rfl

theorem precedes_of_line_lt {p q : Position} (h : p.line < q.line) : p.precedes q := by
  simp [precedes, h]

/-- A place is not reached again by going on from it. -/
theorem ne_right_of_precedes {p q : Position} (h : p.precedes q) {columns : Nat}
    (hcolumns : 0 < columns) : p ≠ q.right columns := by
  rintro rfl
  unfold precedes right at h
  simp at h
  omega

end Position

namespace Layout

/-- The range of the event is on the text. A logical line has none that is empty, unless its text
is blank. -/
def Event.IsOn (ls : List (List Char)) : Event → Prop
  | comment start text => (Range.wide start (Text.width16 text)).IsOn ls
  | fault range _ => range.IsOn ls
  | line l =>
    l.range.IsOn ls ∧ ((∃ c ∈ l.text, Text.isBlank c = false) → l.range.start ≠ l.range.stop)

/-- The places that an unfinished logical line has are on the text, and none is behind a given
one. -/
structure Draft.IsOn (ls : List (List Char)) (pos : Position) (d : Draft) : Prop where
  range : (⟨d.start, d.stop⟩ : Range).IsOn ls
  behind : d.stop.precedes pos
  filled : (∃ c ∈ d.text, Text.isBlank c = false) → d.start ≠ d.stop
  brackets : ∀ b ∈ d.brackets, (Range.wide b.place 1).IsOn ls
  string : ∀ o, d.string = some o →
    (Range.wide o.start o.quote.width).IsOn ls ∧ o.start.precedes pos

/-! ## Pieces -/

/-- A piece leaves nothing but its own characters. -/
theorem Piece.mem_chars_of_mem_trace {p : Piece} {c : Char} (h : c ∈ p.trace) : c ∈ p.chars := by
  cases p with
  | code _ => exact h
  | opening _ => exact h
  | closing _ => exact h
  | _ => cases h

/-- The delimiters of strings are as wide as they are long. -/
theorem Piece.width16_chars_of_opening {mode : Option Quote} {c : Char} {cs : List Char} {q : Quote}
    (h : first mode c cs = .opening q) : Text.width16 q.chars = q.width := by
  have hunits : Text.units16 q.mark = 1 := by
    rcases mark_of_opening h with h | h <;> rw [h] <;> rfl
  unfold Quote.chars Quote.width
  split <;> simp [List.replicate, hunits]

theorem units16_of_isOpener {c : Char} (h : Bracket.isOpener c = true) : Text.units16 c = 1 := by
  simp only [Bracket.isOpener, Bool.or_eq_true, beq_iff_eq] at h
  rcases h with (rfl | rfl) | rfl <;> rfl

theorem units16_of_isCloser {c : Char} (h : Bracket.isCloser c = true) : Text.units16 c = 1 := by
  simp only [Bracket.isCloser, Bool.or_eq_true, beq_iff_eq] at h
  rcases h with (rfl | rfl) | rfl <;> rfl

theorem Piece.precedes_next (pos : Position) (p : Piece) : pos.precedes (p.next pos) := by
  cases p with
  | comment text => exact Position.precedes_refl _
  | _ => exact precedes_right _ _

theorem Piece.next_isOn {pos : Position} {p : Piece} {rest : List Char}
    (h : pos.Before ls (p.chars ++ rest)) : (p.next pos).IsOn ls := by
  cases p with
  | comment text => exact h.isOn
  | _ => exact h.right.isOn

namespace Draft

variable {d : Draft} {pos : Position}

theorem stop_read_cases (d : Draft) (pos : Position) (p : Piece) :
    (d.read pos p).stop = d.stop ∨ (d.read pos p).stop = p.next pos := by
  have hreach : (d.reach pos p).stop = d.stop ∨
      (d.reach pos p).stop = pos.right (Text.width16 p.chars) := by
    unfold reach
    split
    · exact .inl rfl
    · exact .inr rfl
  cases p with
  | comment text => exact .inl rfl
  | _ => exact hreach

/-- A logical line reaches behind every piece that is neither blank nor a comment. -/
theorem stop_read_of_mem (d : Draft) (pos : Position) {p : Piece}
    (hcomment : ∀ text, p ≠ .comment text) {c : Char} (hc : c ∈ p.chars)
    (hblank : Text.isBlank c = false) :
    (d.read pos p).stop = pos.right (Text.width16 p.chars) := by
  have hreach : (d.reach pos p).stop = pos.right (Text.width16 p.chars) := by
    have hsome : ¬p.chars.all Text.isBlank = true := by
      intro hall
      rw [List.all_eq_true.1 hall c hc] at hblank
      cases hblank
    rw [reach, if_neg hsome]
  cases p with
  | comment text => exact absurd rfl (hcomment text)
  | _ => exact hreach

/-- No piece takes back how far the line reaches, and none lets it reach behind itself. -/
theorem precedes_stop_read (h : d.stop.precedes pos) (p : Piece) :
    d.stop.precedes (d.read pos p).stop ∧ (d.read pos p).stop.precedes (p.next pos) := by
  have hnext := Position.precedes_trans h (p.precedes_next pos)
  rcases d.stop_read_cases pos p with hstop | hstop <;> rw [hstop]
  · exact ⟨Position.precedes_refl _, hnext⟩
  · exact ⟨hnext, Position.precedes_refl _⟩

/-- What is met with a piece is on the text. -/
theorem isOn_event? (d : Draft) {p : Piece} {rest : List Char}
    (hpos : pos.Before ls (p.chars ++ rest)) : ∀ e ∈ d.event? pos p, e.IsOn ls := by
  intro e he
  cases p with
  | code c =>
    obtain ⟨f, hf, rfl⟩ := Option.map_eq_some_iff.1 he
    have hcloser : Bracket.isCloser c = true := by
      unfold bracketFault? at hf
      split at hf
      · assumption
      · cases hf
    have hwide := hpos.wide
    rw [Piece.chars, Text.width16_cons, units16_of_isCloser hcloser] at hwide
    exact hwide
  | comment text =>
    cases he
    exact hpos.wide
  | _ => cases he

namespace IsOn

theorem precedes (h : d.IsOn ls pos) {pos' : Position} (hpos : pos.precedes pos') :
    d.IsOn ls pos' where
  range := h.range
  behind := Position.precedes_trans h.behind hpos
  filled := h.filled
  brackets := h.brackets
  string o ho := ⟨(h.string o ho).1, Position.precedes_trans (h.string o ho).2 hpos⟩

theorem begin (hpos : pos.IsOn ls) (indent : Nat) : (Draft.begin pos indent).IsOn ls pos where
  range := ⟨hpos, hpos, Position.precedes_refl _⟩
  behind := Position.precedes_refl _
  filled := by
    rintro ⟨c, hc, -⟩
    cases hc
  brackets := nofun
  string := nofun

/-- Reading a piece keeps all places on the text. -/
theorem read (h : d.IsOn ls pos) {p : Piece} {rest : List Char}
    (hpos : pos.Before ls (p.chars ++ rest))
    (hopening : ∀ q, p = .opening q → Text.width16 q.chars = q.width) :
    (d.read pos p).IsOn ls (p.next pos) where
  range := by
    obtain ⟨hstop, -⟩ := precedes_stop_read h.behind p
    rw [start_read]
    refine ⟨h.range.start, ?_, Position.precedes_trans h.range.ordered hstop⟩
    rcases d.stop_read_cases pos p with hstop | hstop <;> dsimp only <;> rw [hstop]
    · exact h.range.stop
    · exact Piece.next_isOn hpos
  behind := (precedes_stop_read h.behind p).2
  filled := by
    rintro ⟨c, hc, hblank⟩
    rw [← List.mem_reverse, text_read, List.mem_append, List.mem_reverse] at hc
    rw [start_read]
    rcases hc with hc | hc
    · intro hstop
      have hback := (precedes_stop_read h.behind p).1
      rw [← hstop] at hback
      exact h.filled ⟨c, hc, hblank⟩ (Position.precedes_antisymm h.range.ordered hback)
    · have hcomment : ∀ text, p ≠ .comment text := by
        rintro text rfl
        cases hc
      have hchars := Piece.mem_chars_of_mem_trace hc
      rw [d.stop_read_of_mem pos hcomment hchars hblank]
      exact Position.ne_right_of_precedes (Position.precedes_trans h.range.ordered h.behind)
        (Text.width16_pos hchars)
  brackets := by
    rw [brackets_read]
    cases p with
    | code c =>
      dsimp only
      unfold stack
      split
      · rename_i hopener
        refine List.forall_mem_cons.2 ⟨?_, h.brackets⟩
        have hwide := hpos.wide
        rw [Piece.chars, Text.width16_cons, units16_of_isOpener hopener] at hwide
        exact hwide
      split
      · exact fun b hb => h.brackets b (List.mem_of_mem_tail hb)
      · exact h.brackets
    | _ => exact h.brackets
  string := by
    have hnext := p.precedes_next pos
    rw [string_read]
    intro o ho
    cases p with
    | opening q =>
      cases ho
      refine ⟨?_, hnext⟩
      rw [← hopening q rfl]
      exact hpos.wide
    | closing q => cases ho
    | _ => exact ⟨(h.string o ho).1, Position.precedes_trans (h.string o ho).2 hnext⟩

end IsOn

/-- Reading the pieces of a line, from a place on it, keeps all places on the text, and ends on the
same line. -/
theorem isOn_readAll {mode : Option Quote} {line : List Char} (hmode : d.mode = mode)
    (h : d.IsOn ls pos) (hpos : pos.Before ls line) {events : List Event}
    (hevents : ∀ e ∈ events, e.IsOn ls) :
    (d.readAll pos events (pieces mode line)).1.IsOn ls
        (d.readAll pos events (pieces mode line)).2.1 ∧
      (d.readAll pos events (pieces mode line)).2.1.IsOn ls ∧
      (d.readAll pos events (pieces mode line)).2.1.line = pos.line ∧
      ∀ e ∈ (d.readAll pos events (pieces mode line)).2.2, e.IsOn ls := by
  induction mode, line using pieces_induction generalizing d pos events with
  | nil mode => exact ⟨h, hpos.isOn, rfl, hevents⟩
  | cons mode c cs p rest hfirst hchars hlast ih =>
    have hopening : ∀ q, p = .opening q → Text.width16 q.chars = q.width := by
      rintro q rfl
      exact Piece.width16_chars_of_opening hfirst
    rw [← hchars] at hpos
    have hread := h.read hpos hopening
    have hevents' : ∀ e ∈ (d.event? pos p).toList ++ events, e.IsOn ls := by
      intro e he
      rcases List.mem_append.1 he with he | he
      · exact d.isOn_event? hpos e (Option.mem_toList.1 he)
      · exact hevents e he
    rw [readAll_cons]
    cases hp : p.isLast with
    | true =>
      rw [hlast hp, pieces_nil, readAll_nil]
      exact ⟨hread, Piece.next_isOn hpos, line_next pos p, hevents'⟩
    | false =>
      have hmode' : (d.read pos p).mode = p.after mode := by rw [mode_read, hmode]
      have hnext := Piece.next_of_isLast_eq_false pos hp
      have hbefore : (p.next pos).Before ls rest := hnext ▸ hpos.right
      obtain ⟨hdraft, hplace, hline, hmet⟩ := ih hmode' hread hbefore hevents'
      exact ⟨hdraft, hplace, hline.trans (line_next pos p), hmet⟩

end Draft

/-! ## Lines -/

namespace State

/-- The places that the reader has between two lines are on the text, and those of the unfinished
logical line are in front of the next line. -/
structure IsOn (ls : List (List Char)) (row : Nat) (s : State) : Prop where
  events : ∀ e ∈ s.events, e.IsOn ls
  header : ∀ range, s.header = some range → range.IsOn ls
  draft : ∀ d, s.draft = some d → d.IsOn ls ⟨row, 0⟩

variable {s : State}

theorem isOn_emit (h : ∀ e ∈ s.events, e.IsOn ls) {range : Range} (hrange : range.IsOn ls)
    (f : Fault) : ∀ e ∈ (s.emit (.fault range f)).events, e.IsOn ls := by
  intro e he
  rcases List.mem_cons.1 he with rfl | he
  · exact hrange
  · exact h e he

theorem isOn_faultIf (h : ∀ e ∈ s.events, e.IsOn ls) (bad : Bool) {range : Range}
    (hrange : range.IsOn ls) (f : Fault) : ∀ e ∈ (s.faultIf bad range f).events, e.IsOn ls := by
  unfold faultIf
  split
  · exact isOn_emit h hrange f
  · exact h

theorem isOn_reportMissing (h : ∀ e ∈ s.events, e.IsOn ls)
    (hheader : ∀ range, s.header = some range → range.IsOn ls) :
    ∀ e ∈ s.reportMissing.events, e.IsOn ls := by
  unfold reportMissing
  split
  · rename_i header hsome
    exact isOn_emit h (hheader header hsome) _
  · exact h

/-- What is wrong with an indentation is reported where the indentation is, or at the header. -/
theorem IsOn.indent {row : Nat} (h : s.IsOn ls row) (w : Indent) {range : Range}
    (hrange : range.IsOn ls) :
    (∀ e ∈ (s.indent w range).events, e.IsOn ls) ∧ (s.indent w range).header = none := by
  have hmissing := isOn_reportMissing h.events h.header
  unfold State.indent
  split
  · exact ⟨isOn_faultIf (isOn_faultIf h.events _ hrange _) _ hrange _, rfl⟩
  · rw [dedentTo_eq]
    dsimp only
    split
    · exact ⟨isOn_emit hmissing hrange _, rfl⟩
    · exact ⟨isOn_faultIf hmissing _ hrange _, rfl⟩

theorem IsOn.close {pos : Position} {d : Draft} (h : ∀ e ∈ s.events, e.IsOn ls) (hd : d.IsOn ls pos)
    (row : Nat) : (s.close d).IsOn ls row where
  events := by
    intro e he
    rcases List.mem_cons.1 he with rfl | he
    · refine ⟨hd.range, ?_⟩
      rintro ⟨c, hc, hblank⟩
      exact hd.filled ⟨c, List.mem_reverse.1 hc, hblank⟩
    · exact h e he
  header := by
    intro range hheader
    have hsome : (if d.finish.isHeader then some d.finish.range else none) = some range := hheader
    split at hsome
    · cases hsome
      exact hd.range
    · cases hsome
  draft := nofun

/-- The end of a line keeps all places on the text. -/
theorem IsOn.endLine {d : Draft} {pos : Position} (h : ∀ e ∈ s.events, e.IsOn ls)
    (hheader : ∀ range, s.header = some range → range.IsOn ls) (hd : d.IsOn ls pos)
    (hpos : pos.IsOn ls) (last : Option Piece) : (s.endLine d pos last).IsOn ls (pos.line + 1) := by
  have hbreak : (d.breakLine last).IsOn ls pos := by
    unfold Draft.breakLine
    split
    · exact ⟨hd.range, hd.behind, hd.filled, hd.brackets, nofun⟩
    · exact hd
  have hbroken : ∀ e ∈ (s.reportBroken (d.broken? last) pos).events, e.IsOn ls := by
    cases hsome : d.broken? last with
    | none => exact h
    | some o =>
      obtain ⟨hstart, hordered⟩ := hd.string o (Option.filter_eq_some_iff.1 hsome).1
      have hrange : (⟨o.start, pos⟩ : Range).IsOn ls := ⟨hstart.start, hpos, hordered⟩
      exact isOn_emit h hrange _
  rw [endLine_eq]
  dsimp only
  split
  · exact .close hbroken hbreak _
  · refine ⟨hbroken, ?_, ?_⟩
    · intro range hsome
      refine hheader range (.trans ?_ hsome)
      cases d.broken? last <;> rfl
    · rintro _ ⟨⟩
      have hnext : pos.precedes ⟨pos.line + 1, 0⟩ :=
        Position.precedes_of_line_lt (Nat.lt_succ_self _)
      obtain ⟨hrange, hbehind, hfilled, hbrackets, hstring⟩ := hbreak.precedes hnext
      refine ⟨hrange, hbehind, ?_, hbrackets, hstring⟩
      -- the end of a line is blank in the text of the logical line
      rintro ⟨c, hc, hblank⟩
      rcases List.mem_cons.1 hc with rfl | hc
      · cases hblank
      · exact hfilled ⟨c, hc, hblank⟩

/-- Reading the code of a line keeps all places on the text. -/
theorem IsOn.readCode {d : Draft} {pos : Position} {line : List Char}
    (h : ∀ e ∈ s.events, e.IsOn ls) (hheader : ∀ range, s.header = some range → range.IsOn ls)
    (hd : d.IsOn ls pos) (hpos : pos.Before ls line) :
    (s.readCode d pos line).IsOn ls (pos.line + 1) := by
  obtain ⟨hdraft, hplace, hline, hmet⟩ := d.isOn_readAll rfl hd hpos h
  rw [readCode_eq, ← hline]
  refine IsOn.endLine ?_ ?_ hdraft hplace _
  · exact hmet
  · exact hheader

end State

theorem width16_indent {front : List Char} (h : ∀ c ∈ front, indents c) :
    Text.width16 front = front.length := by
  induction front with
  | nil => rfl
  | cons c front ih =>
    obtain ⟨hc, hfront⟩ := List.forall_mem_cons.1 h
    have hunits : Text.units16 c = 1 := by
      simp only [indents, Bool.or_eq_true, beq_iff_eq] at hc
      rcases hc with (rfl | rfl) | rfl <;> rfl
    rw [Text.width16_cons, hunits, ih hfront, List.length_cons, Nat.add_comm]

/-- Behind its indentation a line has what measuring leaves of it. -/
theorem before_measure {row : Nat} {line : List Char} (h : ls[row]? = some line) :
    (⟨row, (Indent.measure line).2.1⟩ : Position).Before ls (Indent.measure line).2.2 := by
  obtain ⟨front, hfront, hcolumn, hindents⟩ := Indent.measure_append line
  refine ⟨front, h.trans (congrArg some hfront), ?_⟩
  rw [width16_indent hindents]
  exact hcolumn

theorem isOn_comment? {row : Nat} {line : List Char} (h : ls[row]? = some line) :
    ∀ e ∈ comment? row line, e.IsOn ls := by
  have hbefore := before_measure h
  unfold comment?
  generalize (Indent.measure line).2.1 = column at *
  generalize (Indent.measure line).2.2 = rest at *
  rintro e he
  cases rest with
  | nil => cases he
  | cons c cs =>
    cases he
    rw [← List.append_nil (c :: cs)] at hbefore
    exact hbefore.wide

namespace State

variable {s : State}

/-- Reading a line keeps all places on the text. -/
theorem IsOn.readLine {row : Nat} (h : s.IsOn ls row) {line : List Char}
    (hline : ls[row]? = some line) : (s.readLine row line).IsOn ls (row + 1) := by
  have hbegin : (⟨row, 0⟩ : Position).Before ls line := ⟨[], hline, rfl⟩
  have hbefore := before_measure hline
  rcases s.readLine_cases row line with ⟨d, hd, hread⟩ | ⟨hnone, ⟨-, hread⟩ | ⟨-, hread⟩⟩ <;>
    rw [hread]
  · exact .readCode h.events h.header (h.draft d hd) hbegin
  · refine ⟨?_, h.header, fun d hd => absurd (hd.symm.trans hnone) (by simp)⟩
    intro e he
    rcases List.mem_append.1 he with he | he
    · exact isOn_comment? hline e (Option.mem_toList.1 he)
    · exact h.events e he
  · have hrange : (⟨⟨row, 0⟩, ⟨row, (Indent.measure line).2.1⟩⟩ : Range).IsOn ls :=
      ⟨hbegin.isOn, hbefore.isOn, by simp [Position.precedes]⟩
    obtain ⟨hevents, hheader⟩ := h.indent (Indent.measure line).1 hrange
    refine .readCode hevents ?_ (.begin hbefore.isOn _) hbefore
    simp [hheader]

theorem isOn_initial : State.initial.IsOn ls 0 :=
  ⟨nofun, nofun, nofun⟩

/-- All places that the reader has kept when it has read a text are on the text. -/
theorem isOn_readLines (ls : List (List Char)) :
    (State.initial.readLines 0 ls).IsOn ls ls.length :=
  readLines_induction (motive := fun row s => s.IsOn ls row)
    (fun _ _ _ hline h => h.readLine hline) isOn_initial

/-! ## The end of the text -/

theorem isOn_reportUnclosed (h : ∀ e ∈ s.events, e.IsOn ls) {pos : Position} {d : Draft}
    (hd : d.IsOn ls pos) : ∀ e ∈ (s.reportUnclosed d.string d.brackets).events, e.IsOn ls := by
  have hbrackets := hd.brackets
  generalize d.brackets = brackets at *
  induction brackets with
  | nil =>
    cases hstring : d.string with
    | none => exact h
    | some o => exact isOn_emit h (hd.string o hstring).1 _
  | cons b brackets ih =>
    obtain ⟨hb, hbrackets⟩ := List.forall_mem_cons.1 hbrackets
    exact isOn_emit (ih hbrackets) hb _

theorem IsOn.finish {row : Nat} (h : s.IsOn ls row) : ∀ e ∈ s.finish, e.IsOn ls := by
  have habandon : s.abandonOpen.IsOn ls row := by
    unfold abandonOpen
    cases hdraft : s.draft with
    | none => exact h
    | some d => exact .close (isOn_reportUnclosed h.events (h.draft d hdraft)) (h.draft d hdraft) row
  intro e he
  rw [finish_eq, List.mem_reverse] at he
  exact isOn_reportMissing habandon.events habandon.header e he

end State

/-- All that is met in a text has its range on the text. -/
theorem isOn_scan (ls : List (List Char)) : ∀ e ∈ scan ls, e.IsOn ls :=
  (State.isOn_readLines ls).finish

end Layout

end Reparse
