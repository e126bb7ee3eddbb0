import Reparse.Proofs.Layout.Correspondence
import Reparse.Proofs.Layout.Cut
import Reparse.Proofs.Layout.Ranges
import Reparse.Proofs.Lines

/-!
A logical line that goes on behind the end of a physical line, and the same line with a blank in
place of that end. The reader of the one text is behind the end of the line where the reader of the
other one is behind the blank, with the same code behind it, so from there on they read alike. What
is behind has moved up, but everything stays in the same order.
-/

namespace Reparse.Layout

/-- The places of a text in which a line is joined to the one before it, which has the given number
and width, and where they are then. Between the two lines there is one column. -/
inductive Joined (row width : Nat) : Position → Position → Prop
  | before {p : Position} : p.precedes ⟨row, width⟩ → Joined row width p p
  | joined (column : Nat) : Joined row width ⟨row + 1, column⟩ ⟨row, width + 1 + column⟩
  | behind {line : Nat} (column : Nat) : row < line →
    Joined row width ⟨line + 1, column⟩ ⟨line, column⟩

namespace Joined

variable {row width : Nat}

/-- Joining lines leaves all places in their order. -/
theorem precedes_eq {p p' q q' : Position} (h : Joined row width p p')
    (h' : Joined row width q q') : p.precedes q = p'.precedes q' := by
  rw [Bool.eq_iff_iff]
  cases h <;> cases h' <;> simp only [Position.precedes, Bool.or_eq_true, Bool.and_eq_true,
    decide_eq_true_eq, beq_iff_eq, true_and] at * <;> omega

theorem before_line {line : Nat} (h : line < row) (column : Nat) :
    Joined row width ⟨line, column⟩ ⟨line, column⟩ :=
  .before (Position.precedes_of_line_lt h)

theorem before_column {column : Nat} (h : column ≤ width) :
    Joined row width ⟨row, column⟩ ⟨row, column⟩ :=
  .before (by simp [Position.precedes, h])

theorem along (columns : Nat) : Along (Joined row width) columns ⟨row + 1, 0⟩ ⟨row, width + 1⟩ := by
  intro n _
  simp only [Position.right, Nat.zero_add]
  exact .joined n

end Joined

/-! ## The line up to its end -/

/-- A line ends in code: no string is open behind it and no comment has begun. The code that is read
of it and the unfinished logical line behind it are given. -/
structure EndsInCode (s : State) (row : Nat) (line : List Char) (e : Entry) (d : Draft) : Prop where
  enter : s.enter? row line = some e
  draft : (e.draft.readAll e.place e.state.events (pieces e.draft.mode e.code)).1 = d
  string : d.string = none
  comment : ∀ text, (pieces e.draft.mode e.code).getLast? ≠ some (.comment text)

/-- The unfinished logical line behind the first characters of a line, given the text before it, if
these characters end in code. -/
def openCode? (before front : List Char) : Option Draft :=
  let rows := Text.lines before
  match (State.initial.readLines 0 rows).enter? rows.length front with
  | none => none
  | some e =>
    let ps := pieces e.draft.mode e.code
    let d := (e.draft.readAll e.place e.state.events ps).1
    match ps.getLast? with
    | some (.comment _) => none
    | _ => if d.string.isNone then some d else none

theorem exists_endsInCode_of_openCode? {before front : List Char} {d : Draft}
    (h : openCode? before front = some d) :
    ∃ e, EndsInCode (State.initial.readLines 0 (Text.lines before)) (Text.lines before).length
      front e d := by
  unfold openCode? at h
  dsimp only at h
  split at h
  · cases h
  · rename_i e henter
    split at h
    · cases h
    · rename_i hcomment
      split at h
      · rename_i hstring
        cases h
        exact ⟨e, henter, rfl, Option.isNone_iff_eq_none.1 hstring, hcomment⟩
      · cases h

/-- How a logical line goes on behind a physical line that ends in code: a backslash joins the next
line, or a bracket is open. In the second case the line does not end in a backslash, nor in a
carriage return, which would be a part of its end. -/
inductive GoesOn (d : Draft) (front : List Char) : List Char → Prop
  | backslash : GoesOn d front ['\\']
  | bracket : d.brackets ≠ [] → front.getLast? ≠ some '\\' → front.getLast? ≠ some '\r' →
    GoesOn d front []

namespace Draft

theorem mode_eq_none_iff {d : Draft} : d.mode = none ↔ d.string = none :=
  Option.map_eq_none_iff

/-- Pieces of a line that goes on behind them take as many columns as their characters. -/
theorem place_readAll (d : Draft) (pos : Position) (events : List Event) {ps : List Piece}
    (h : ∀ p ∈ ps, p.isLast = false) :
    (d.readAll pos events ps).2.1 = pos.right (Text.width16 (ps.flatMap Piece.chars)) := by
  induction ps generalizing d pos events with
  | nil => rfl
  | cons p ps ih =>
    obtain ⟨hp, hps⟩ := List.forall_mem_cons.1 h
    rw [readAll_cons, ih _ _ _ hps, Piece.next_of_isLast_eq_false pos hp, right_right,
      List.flatMap_cons, Text.width16_append]

end Draft

namespace State

variable {s : State} {row : Nat} {line : List Char} {e : Entry}

/-- The code of a line begins behind some first characters of it. -/
theorem place_of_enter? (h : s.enter? row line = some e) :
    ∃ front, line = front ++ e.code ∧ e.place = ⟨row, Text.width16 front⟩ := by
  cases hd : s.draft with
  | some d =>
    rw [enter?_of_draft hd] at h
    cases h
    exact ⟨[], rfl, rfl⟩
  | none =>
    obtain ⟨w, column, c, rest, hmeasure, -, rfl⟩ := (enter?_eq_some_iff hd).1 h
    obtain ⟨front, hline, hcolumn, hindents⟩ := Indent.measure_append line
    rw [hmeasure] at hline hcolumn
    refine ⟨front, hline, ?_⟩
    rw [width16_indent hindents, ← hcolumn]

theorem Corresponds.enter? {R : Position → Position → Prop} (hs : s.Corresponds R s)
    (hrow : ∀ column ≤ Text.width16 line, R ⟨row, column⟩ ⟨row, column⟩)
    (h : s.enter? row line = some e) :
    e.state.Resembles R e.state ∧ e.draft.Corresponds R e.draft := by
  obtain ⟨front, hline, hplace⟩ := place_of_enter? h
  cases hd : s.draft with
  | some d =>
    rw [enter?_of_draft hd] at h
    cases h
    have hdraft := hs.draft
    rw [hd] at hdraft
    cases hdraft with
    | some hdraft => exact ⟨hs.toResembles, hdraft⟩
  | none =>
    obtain ⟨w, column, c, rest, -, -, rfl⟩ := (enter?_eq_some_iff hd).1 h
    have hplace' : R ⟨row, column⟩ ⟨row, column⟩ := by
      dsimp only at hplace
      rw [hplace]
      refine hrow _ ?_
      rw [hline, Text.width16_append]
      exact Nat.le_add_right _ _
    refine ⟨hs.toResembles.indent w ?_, .begin hplace' _⟩
    exact hrow 0 (Nat.zero_le _)

end State

namespace EndsInCode

variable {s : State} {row : Nat} {front : List Char} {e : Entry} {d : Draft}

/-- What is read up to the end of the line is read in the same way if more follows. -/
theorem exists_pieces (h : EndsInCode s row front e d) (hs : s.IsMarked) :
    ∃ ps, ps.flatMap Piece.chars = e.code ∧ (∀ p ∈ ps, p.isLast = false) ∧
      (e.draft.readAll e.place e.state.events ps).1.string = none ∧
      (∀ c v, ¬IsMark c → pieces e.draft.mode (e.code ++ c :: v) = ps ++ pieces none (c :: v)) ∧
      (e.code.getLast? ≠ some '\\' → pieces e.draft.mode e.code = ps) := by
  have hafter : (pieces e.draft.mode e.code).foldl Piece.after e.draft.mode = none := by
    rw [← Draft.mode_readAll e.draft e.place e.state.events, h.draft, Draft.mode_eq_none_iff]
    exact h.string
  cases pieces_cut (hs.enter? h.enter) e.code with
  | between ps hps hgoes _ hcut hsame hend =>
    rw [← hsame, hafter] at hcut
    refine ⟨ps, hps, hgoes, ?_, hcut, hend⟩
    rw [← Draft.mode_eq_none_iff, Draft.mode_readAll, ← hsame, hafter]
  | escape ps q _ hquote _ _ hend =>
    rw [hend, List.foldl_append, hquote] at hafter
    cases hafter
  | comment ps text _ _ _ hend =>
    exact absurd (by rw [hend, List.getLast?_concat]) (h.comment text)

end EndsInCode

/-! ## The end of the line -/

theorem State.endLine_of_goesOn (s : State) {d : Draft} (pos : Position) {last : Option Piece}
    (hstring : d.string = none) (hlast : d.brackets ≠ [] ∨ last = some .continuation) :
    s.endLine d pos last = { s with draft := some { d with text := ' ' :: d.text } } := by
  have hbroken : d.broken? last = none := by rw [Draft.broken?, hstring, Option.filter_none]
  refine s.endLine_of_not_isComplete d pos hbroken ?_
  rcases hlast with hbrackets | rfl
  · rw [Draft.isComplete, List.isEmpty_eq_false_iff.2 hbrackets, Bool.and_false, Bool.false_and]
  · rw [Draft.isComplete, bne_self_eq_false, Bool.and_false]

/-- A backslash at the end of a line leaves no trace in the logical line. -/
theorem Draft.exists_read_continuation (d : Draft) (pos : Position) :
    ∃ stop, d.read pos .continuation = { d with stop } := by
  have hread : d.read pos .continuation = d.reach pos .continuation := rfl
  rw [hread, reach]
  split
  · exact ⟨d.stop, rfl⟩
  · exact ⟨_, rfl⟩

namespace EndsInCode

variable {s : State} {row : Nat} {front : List Char} {e : Entry} {d : Draft}

/-- Both ways to go on behind the line begin with one unfinished logical line: where the physical
line ends, and where it goes on behind a blank. -/
theorem exists_readLine {t : State} {c : Draft} {place : Position} {code : List Char}
    (h : EndsInCode s row front ⟨t, c, place, code⟩ d) (hs : s.IsMarked) {mark : List Char}
    (hmark : GoesOn d front mark) :
    ∃ ps d₀ events, ps.flatMap Piece.chars = code ∧
      c.readAll place t.events ps = (d₀, ⟨row, Text.width16 front⟩, events) ∧
      d₀.string = none ∧
      (∃ stop, s.readLine row (front ++ mark) =
        { t with events, draft := some { d₀ with stop, text := ' ' :: d₀.text } }) ∧
      ∀ back, s.readLine row (front ++ ' ' :: back) =
        State.readPieces { t with events } { d₀ with text := ' ' :: d₀.text }
          ⟨row, Text.width16 front + 1⟩ (pieces none back) := by
  obtain ⟨ps, hps, hgoes, hstring, hcut, hend⟩ := h.exists_pieces hs
  obtain ⟨before, hfront, hplace⟩ := State.place_of_enter? h.enter
  have hread : ∀ more, s.readLine row (front ++ more) = t.readCode c place (code ++ more) := by
    intro more
    rw [State.readLine_append_of_enter? h.enter]
  have hbehind := c.place_readAll place t.events hgoes
  have hdraft := h.draft
  obtain ⟨d₀, pos, events, hr⟩ :
      ∃ d₀ pos events, c.readAll place t.events ps = (d₀, pos, events) := ⟨_, _, _, rfl⟩
  dsimp only at hps hstring hcut hend hfront hplace hdraft
  rw [hr] at hstring hbehind
  obtain rfl : pos = ⟨row, Text.width16 front⟩ := by
    refine hbehind.trans ?_
    rw [hplace, hps, hfront, Text.width16_append]
    rfl
  refine ⟨ps, d₀, events, hps, hr, hstring, ?_, fun back => ?_⟩
  · rw [hread, State.readCode_eq]
    cases hmark with
    | backslash =>
      have hpieces : pieces c.mode (code ++ ['\\']) = ps ++ [.continuation] :=
        hcut '\\' [] (by decide)
      obtain ⟨stop, hlast⟩ := d₀.exists_read_continuation ⟨row, Text.width16 front⟩
      rw [hpieces, Draft.readAll_append, hr, List.getLast?_concat, Draft.readAll_cons,
        Draft.readAll_nil, hlast]
      exact ⟨stop, State.endLine_of_goesOn _ _ hstring (.inr rfl)⟩
    | bracket hbrackets hback _ =>
      have hpieces : pieces c.mode code = ps := by
        refine hend fun hcode => hback ?_
        rw [hfront, List.getLast?_append, hcode]
        rfl
      rw [hpieces, hr] at hdraft
      subst hdraft
      rw [List.append_nil, hpieces, hr]
      exact ⟨d₀.stop, State.endLine_of_goesOn _ _ hstring (.inl hbrackets)⟩
  · have hpieces : pieces c.mode (code ++ ' ' :: back) = ps ++ .code ' ' :: pieces none back := by
      rw [hcut ' ' back (by decide), pieces_cons]
      rfl
    rw [hread, t.readCode_cut hpieces rfl hr]
    rfl

/-- The reader of the text in which the line ends, behind the next line, is where the reader of the
other text is behind the line to which that one has been joined. -/
theorem corresponds (h : EndsInCode s row front e d) (hs : s.IsMarked)
    (hself : s.Corresponds (Joined row (Text.width16 front)) s) {mark : List Char}
    (hmark : GoesOn d front mark) (back : List Char) :
    ((s.readLine row (front ++ mark)).readLine (row + 1) back).Corresponds
      (Joined row (Text.width16 front)) (s.readLine row (front ++ ' ' :: back)) := by
  obtain ⟨t, c, place, code⟩ := e
  obtain ⟨ps, d₀, events, hps, hr, hstring, ⟨stop, hended⟩, hjoined⟩ := h.exists_readLine hs hmark
  obtain ⟨before, hfront, hplace⟩ := State.place_of_enter? h.enter
  obtain ⟨ht, hc⟩ := hself.enter? (fun _ hle => .before_column hle) h.enter
  have halong : Along (Joined row (Text.width16 front)) (Text.width16 (ps.flatMap Piece.chars))
      place place := by
    intro columns hle
    rw [show place = ⟨row, Text.width16 before⟩ from hplace]
    refine .before_column ?_
    rw [hfront, Text.width16_append, ← hps]
    exact Nat.add_le_add_left hle _
  obtain ⟨hread, hevents⟩ := hc.readAll halong ht.events
  rw [hr] at hread hevents
  have hbefore : ∀ draft, State.Resembles (Joined row (Text.width16 front)) { t with events, draft }
      { t with events } := fun _ => ⟨ht.levels, ht.header, hevents⟩
  have hmode : ({ d₀ with stop, text := ' ' :: d₀.text } : Draft).mode = none :=
    Draft.mode_eq_none_iff.2 hstring
  have hdraft : Draft.Corresponds (Joined row (Text.width16 front))
      { d₀ with stop, text := ' ' :: d₀.text } { d₀ with text := ' ' :: d₀.text } :=
    ⟨hread.start, rfl, rfl, hread.brackets, hread.string⟩
  rw [hended, hjoined, State.readLine_of_draft rfl, hmode]
  exact (hbefore _).readPieces hdraft (.along _)

end EndsInCode

/-! ## The lines before and behind -/

/-- The lines before the joined ones are where they were. -/
theorem State.corresponds_readLines (rows : List (List Char)) (width : Nat) :
    (State.initial.readLines 0 rows).Corresponds (Joined rows.length width)
      (State.initial.readLines 0 rows) := by
  refine (State.corresponds_initial _).readLines fun i hi column => ?_
  rw [Nat.zero_add]
  exact .before_line hi column

theorem map_trim_segmentsFrom (depth : Nat) (segment : List Char) (done : List (List Char))
    (text : List Char) :
    (segmentsFrom depth segment done (text ++ [' '])).map Text.trim =
      (segmentsFrom depth segment done text).map Text.trim := by
  fun_induction segmentsFrom depth segment done text with
  | case1 depth segment done =>
    have hblank : segmentsFrom depth segment done ([] ++ [' ']) =
        ((segment.reverse ++ [' ']) :: done).reverse := by
      simp [segmentsFrom]
    rw [hblank, List.reverse_cons, List.reverse_cons, List.map_append, List.map_append,
      List.map_singleton, Text.trim_append_of (by decide), List.map_singleton]
  | case2 depth segment done c cs h ih => rw [List.cons_append, segmentsFrom, if_pos h, ih]
  | case3 depth segment done c cs h ih => rw [List.cons_append, segmentsFrom, if_neg h, ih]

/-- A blank at the end of a text is in none of its segments. -/
theorem segments_append_blank (text : List Char) : segments (text ++ [' ']) = segments text := by
  rw [segments, segments, map_trim_segmentsFrom]

theorem State.abandonOpen_of_draft {s : State} {d : Draft} (hdraft : s.draft = some d)
    (hstring : d.string = none) : s.abandonOpen = (s.reportUnclosed none d.brackets).close d := by
  rw [abandonOpen, hdraft, ← hstring]
  rfl

/-- An empty line at the end of a text, in a logical line that goes on, changes nothing. -/
theorem State.finish_readLine_nil {s : State} {d : Draft} (hdraft : s.draft = some d)
    (hstring : d.string = none) (row : Nat) :
    List.Forall₂ (Event.Corresponds Eq) (s.readLine row []).finish s.finish := by
  have hself : ∀ t : State, t.Resembles Eq t := .refl fun _ => rfl
  have hread : s.readLine row [] = s.endLine d ⟨row, 0⟩ none := by
    rw [readLine, hdraft]
    rfl
  refine Resembles.finish ?_
  rw [abandonOpen_of_draft hdraft hstring, hread]
  by_cases hbrackets : d.brackets = []
  · -- The line ends the logical line, as the end of the text would.
    have hclose : s.endLine d ⟨row, 0⟩ none = s.close d := by
      simp [endLine, hstring, hbrackets]
    rw [hclose, hbrackets]
    exact hself (s.close d)
  · -- The line is one blank more in the logical line.
    have hsame : List.Forall₂ (OpenBracket.Corresponds Eq) d.brackets d.brackets :=
      List.forall₂_same.2 fun _ _ => ⟨rfl, rfl⟩
    have hopened : ∀ draft, State.Resembles Eq { s with draft } s :=
      fun _ => ⟨rfl, (hself s).header, (hself s).events⟩
    have htext : segments (' ' :: d.text).reverse = segments d.text.reverse := by
      rw [List.reverse_cons, segments_append_blank]
    have hstring' : ({ d with text := ' ' :: d.text } : Draft).string = none := hstring
    rw [endLine_of_goesOn s _ hstring (.inl hbrackets), abandonOpen_of_draft rfl hstring']
    have hreport := (hopened (some { d with text := ' ' :: d.text })).reportUnclosed .none hsame
    refine (Resembles.close hreport ?_ ?_ ?_).toResembles
    · rfl
    · rfl
    · exact htext

/-- The events of a text in which a logical line goes on behind the end of a line, and those of the
text with a blank in place of that end. -/
theorem EndsInCode.corresponds_scan {rows : List (List Char)} {front : List Char} {e : Entry}
    {d : Draft} (h : EndsInCode (State.initial.readLines 0 rows) rows.length front e d)
    {mark : List Char} (hmark : GoesOn d front mark) (back : List Char) (post : List (List Char)) :
    List.Forall₂ (Event.Corresponds (Joined rows.length (Text.width16 front)))
      (scan (rows ++ (front ++ mark) :: back :: post))
      (scan (rows ++ (front ++ ' ' :: back) :: post)) := by
  have hjoin := h.corresponds (State.isMarked_readLines rows)
    (State.corresponds_readLines rows _) hmark back
  simp only [scan, State.readLines_append, State.readLines, Nat.zero_add]
  refine (hjoin.readLines fun i _ column => ?_).finish
  rw [Nat.add_right_comm]
  exact .behind column (by omega)

/-- The end of a text in which a logical line goes on, and of the text with one more line, which is
empty. -/
theorem EndsInCode.corresponds_scan_nil {rows : List (List Char)} {front : List Char} {e : Entry}
    {d : Draft} (h : EndsInCode (State.initial.readLines 0 rows) rows.length front e d)
    {mark : List Char} (hmark : GoesOn d front mark) :
    List.Forall₂ (Event.Corresponds Eq) (scan (rows ++ [front ++ mark, []]))
      (scan (rows ++ [front ++ mark])) := by
  obtain ⟨t, c, place, code⟩ := e
  obtain ⟨ps, d₀, events, -, -, hstring, ⟨stop, hended⟩, -⟩ :=
    h.exists_readLine (State.isMarked_readLines rows) hmark
  have hdraft : ((State.initial.readLines 0 rows).readLine rows.length (front ++ mark)).draft =
      some { d₀ with stop, text := ' ' :: d₀.text } := by rw [hended]
  simp only [scan, State.readLines_append, State.readLines, Nat.zero_add]
  exact State.finish_readLine_nil hdraft hstring _

end Layout

open Layout

/-- Where a logical line goes on behind the end of a line, a blank in place of that end, and of the
backslash in front of it, changes nothing but places: the statements have the same kinds, names and
indentations, and the reports the same severities, sources and words in the same order. -/
theorem parseText_join_line {before front mark : List Char} {d : Draft}
    (hbefore : before = [] ∨ before.getLast? = some '\n') (hfront : '\n' ∉ front)
    (hcode : openCode? before front = some d) (hmark : GoesOn d front mark) (behind : List Char)
    (options : Options) :
    (parseText (before ++ (front ++ ' ' :: behind)) options).withoutPlaces =
      (parseText (before ++ (front ++ mark ++ '\n' :: behind)) options).withoutPlaces := by
  obtain ⟨e, hopen⟩ := exists_endsInCode_of_openCode? hcode
  obtain ⟨back, post, -, hbehind, hline⟩ := Text.exists_linesFrom_cons behind
  have hjoined : Text.lines (before ++ (front ++ ' ' :: behind)) =
      Text.lines before ++ (front ++ ' ' :: back) :: post := by
    rw [Text.lines_append_of_newline _ hbefore, Text.lines, Text.lines,
      Text.linesFrom_append_of_not_mem hfront, hline _ _ (by decide) (by decide)]
    simp
  have hnewline : '\n' ∉ front ++ mark := by
    cases hmark with
    | backslash => simpa using hfront
    | bracket => simpa using hfront
  have hreturn : (front ++ mark).getLast? ≠ some '\r' := by
    cases hmark with
    | backslash => simp
    | bracket _ _ hreturn => simpa using hreturn
  have hended : Text.lines (before ++ (front ++ mark ++ '\n' :: behind)) =
      Text.lines before ++ (front ++ mark) :: Text.lines behind := by
    rw [Text.lines_append_of_newline _ hbefore, Text.lines_append_cons hnewline hreturn]
  have hscan := withoutPlaces_of_correspond (fun _ _ _ _ => Joined.precedes_eq)
    (hopen.corresponds_scan hmark back post) options
  rw [parseText, parseText, hjoined, hended]
  rcases hbehind with hbehind | ⟨rfl, rfl, rfl⟩
  · rw [hbehind]
    exact hscan.symm
  · have hlast := withoutPlaces_of_correspond (fun _ _ _ _ => by rintro rfl rfl; rfl)
      (hopen.corresponds_scan_nil hmark) options
    exact hscan.symm.trans hlast

/-- A block with a bracket that is open at the end of a line, and is closed by a wrong one in front
of a comment. -/
theorem parseText_join_bracket :
    openCode? "if x:\n".toList "    y = (1 +".toList =
        some ⟨⟨1, 4⟩, ⟨1, 12⟩, 4, "+ 1( = y".toList, [⟨'(', ⟨1, 8⟩⟩], none⟩ ∧
      (parseText "if x:\n    y = (1 +\n  2]  # b\nz = 3\n".toList .standard).outline.statements.map
        (fun s => (s.kind, s.range, s.indent)) =
          [(.control, ⟨⟨0, 0⟩, ⟨0, 5⟩⟩, 0), (.assignment, ⟨⟨1, 4⟩, ⟨2, 4⟩⟩, 4),
            (.assignment, ⟨⟨3, 0⟩, ⟨3, 5⟩⟩, 0)] ∧
      (parseText "if x:\n    y = (1 +\n  2]  # b\nz = 3\n".toList .standard).diagnostics.length =
        1 ∧
      (parseText "if x:\n    y = (1 +   2]  # b\nz = 3\n".toList .standard).withoutPlaces =
        (parseText "if x:\n    y = (1 +\n  2]  # b\nz = 3\n".toList .standard).withoutPlaces := by
  have hcode : openCode? "if x:\n".toList "    y = (1 +".toList =
      some ⟨⟨1, 4⟩, ⟨1, 12⟩, 4, "+ 1( = y".toList, [⟨'(', ⟨1, 8⟩⟩], none⟩ := by decide +kernel
  refine ⟨hcode, by decide +kernel, ?_, ?_⟩
  · exact (List.length_mergeSort _).trans (by decide +kernel)
  · exact parseText_join_line (.inr (by decide)) (by decide) hcode
      (.bracket (by decide) (by decide) (by decide)) "  2]  # b\nz = 3\n".toList .standard

end Reparse
