import Reparse.Proofs.Layout.Levels
import Reparse.Proofs.Layout.Renumber
import Reparse.Proofs.Layout.Reports
import Reparse.Proofs.Lines

/-!
Two texts one after the other. Where no logical line is open between them, the second is read as if
it stood alone: of all that the reader carries over, only the indentations and a header without its
block can matter, they matter to nothing but reports, and a line at the very left forgets them. Such
a header is reported where the next line of code begins, and at the end of the text if none does;
either way the report stands at the header, so sorting brings it to the same place.
-/

namespace Reparse

namespace Layout

/-! ## The same code -/

theorem statements_eq (options : Options) (events : List Event) :
    statements options events =
      (events.filterMap Event.line?).flatMap fun l =>
        l.statements options.version options.bindNames := by
  induction events with
  | nil => rfl
  | cons e events ih =>
    rw [statements, List.flatMap_cons, ← statements, ih]
    cases e <;> rfl

namespace State

variable (s : State)

/-- The reader `s` is at the same place in the code as `t`, and has finished the logical lines of
the past and then those that `t` has finished. Nothing is said of indentations, headers and
reports. -/
structure SameCode (past : List LogicalLine) (s t : State) : Prop where
  draft : s.draft = t.draft
  lines : s.lines = t.lines ++ past

namespace SameCode

variable {past : List LogicalLine} {s t : State}

theorem endLine (h : SameCode past s t) (d : Draft) (pos : Position) (last : Option Piece) :
    SameCode past (s.endLine d pos last) (t.endLine d pos last) := by
  have hlines : (s.reportBroken (d.broken? last) pos).lines =
      (t.reportBroken (d.broken? last) pos).lines ++ past := by
    simpa using h.lines
  rw [endLine_eq, endLine_eq]
  dsimp only
  split
  · exact ⟨rfl, congrArg ((d.breakLine last).finish :: ·) hlines⟩
  · exact ⟨rfl, hlines⟩

theorem readCode (h : SameCode past s t) (d : Draft) (pos : Position) (line : List Char) :
    SameCode past (s.readCode d pos line) (t.readCode d pos line) := by
  have hread : SameCode past
      { s with events := (d.readAll pos s.events (pieces d.mode line)).2.2 }
      { t with events := (d.readAll pos t.events (pieces d.mode line)).2.2 } := by
    refine ⟨h.draft, ?_⟩
    simp only [State.lines, Draft.filterMap_line?_readAll]
    exact h.lines
  rw [readCode_eq, readCode_eq, d.readAll_eq pos s.events, d.readAll_eq pos t.events]
  rw [d.readAll_eq pos s.events, d.readAll_eq pos t.events] at hread
  exact hread.endLine _ _ _

/-- A line of code is the same code, whatever the indentations before it are. -/
theorem readLine (h : SameCode past s t) (row : Nat) (line : List Char) :
    SameCode past (s.readLine row line) (t.readLine row line) := by
  rcases s.readLine_cases row line with ⟨d, hd, hs⟩ | ⟨hdraft, ⟨hcode, hs⟩ | ⟨hcode, hs⟩⟩
  · have ht : t.readLine row line = t.readCode d ⟨row, 0⟩ line := by
      unfold State.readLine
      rw [← h.draft, hd]
    rw [hs, ht]
    exact h.readCode d _ line
  · rw [hs, readLine_of_not_isCodeLine (h.draft.symm.trans hdraft) hcode]
    refine ⟨h.draft, ?_⟩
    have hlines := h.lines
    simp only [State.lines, List.filterMap_append, List.append_assoc] at hlines ⊢
    rw [hlines]
  · rw [hs, readLine_of_isCodeLine (h.draft.symm.trans hdraft) hcode]
    refine readCode ⟨?_, ?_⟩ _ _ _
    · simpa using h.draft
    · simpa using h.lines

theorem readLines (h : SameCode past s t) (row : Nat) (lines : List (List Char)) :
    SameCode past (s.readLines row lines) (t.readLines row lines) := by
  induction lines generalizing s t row with
  | nil => exact h
  | cons line lines ih => exact ih (h.readLine row line) (row + 1)

theorem abandonOpen (h : SameCode past s t) : SameCode past s.abandonOpen t.abandonOpen := by
  unfold State.abandonOpen
  rw [← h.draft]
  cases hd : s.draft with
  | none => exact h
  | some d =>
    have hlines : (s.reportUnclosed d.string d.brackets).lines =
        (t.reportUnclosed d.string d.brackets).lines ++ past := by
      simpa using h.lines
    exact ⟨rfl, congrArg (d.finish :: ·) hlines⟩

/-- In the end the logical lines are those of the past and those of the text since. -/
theorem filterMap_line?_finish (h : SameCode past s t) :
    s.finish.filterMap Event.line? = past.reverse ++ t.finish.filterMap Event.line? := by
  have hlines := h.abandonOpen.lines
  rw [← lines_reportMissing s.abandonOpen, ← lines_reportMissing t.abandonOpen] at hlines
  rw [finish_eq, finish_eq, List.filterMap_reverse, List.filterMap_reverse,
    ← List.reverse_append]
  exact congrArg List.reverse hlines

end SameCode

/-! ## What the first line of code meets -/

/-- The report that a header has no block, if one awaits it. -/
def missing (s : State) : List Event :=
  (s.header.map fun header => Event.fault header .missingBlock).toList

theorem events_reportMissing : s.reportMissing.events = s.missing ++ s.events := by
  unfold reportMissing missing
  cases s.header <;> rfl

@[simp]
theorem reverse_missing : s.missing.reverse = s.missing := by
  unfold missing
  cases s.header <;> rfl

@[simp]
theorem events_initial : initial.events = [] := rfl

@[simp]
theorem missing_initial : initial.missing = [] := rfl

theorem finish_eq_append_missing (h : s.draft = none) :
    s.finish = s.events.reverse ++ s.missing := by
  rw [finish_of_draft_eq_none s h, events_reportMissing, List.reverse_append, reverse_missing]

/-- Before the first line, but with events of the past. -/
def ground (past : List Event) : State := ⟨[], none, none, past⟩

/-- Events of the past come first in the end, and change nothing. -/
theorem finish_readLines_ground (past : List Event) (row : Nat) (lines : List (List Char)) :
    ((ground past).readLines row lines).finish =
      past.reverse ++ (initial.readLines row lines).finish := by
  have hid : Event.renumber id = id := by
    funext e
    cases e <;> rfl
  have hground : ground past = initial.renumber id past := rfl
  rw [hground, readLines_renumber id past initial row row lines (fun _ _ => rfl),
    finish_renumber, hid, List.map_id]

/-- A line of code at the very left is read as the first one. -/
theorem readLine_of_column_eq_zero {s : State} {row : Nat} {line : List Char}
    (hdraft : s.draft = none) (hlevels : Grounded s.stack) (hcode : isCodeLine line = true)
    (hcolumn : (Indent.measure line).1.column = 0) :
    s.readLine row line = (ground (s.missing ++ s.events)).readLine row line := by
  have hnone : (ground (s.missing ++ s.events)).draft = none := rfl
  have hground : Grounded (ground (s.missing ++ s.events)).stack := .ground
  rw [readLine_of_isCodeLine hdraft hcode, readLine_of_isCodeLine hnone hcode,
    Indent.measure_eq_ground hcolumn, indent_ground hlevels, indent_ground hground, hdraft,
    events_reportMissing]
  rfl

end State

/-- The comments of lines that have no code, the first of which has the given number. -/
def comments (row : Nat) : List (List Char) → List Event
  | [] => []
  | line :: lines => (comment? row line).toList ++ comments (row + 1) lines

namespace State

/-- The reader after more events, given in the order in which they are met. -/
def meet (s : State) (events : List Event) : State :=
  { s with events := events.reverse ++ s.events }

@[simp]
theorem draft_meet (s : State) (events : List Event) : (s.meet events).draft = s.draft := rfl

@[simp]
theorem events_meet (s : State) (events : List Event) :
    (s.meet events).events = events.reverse ++ s.events := rfl

@[simp]
theorem missing_meet (s : State) (events : List Event) : (s.meet events).missing = s.missing := rfl

theorem meet_meet (s : State) (events events' : List Event) :
    (s.meet events).meet events' = s.meet (events ++ events') := by
  simp [meet]

/-- Lines without code bring their comments and nothing else. -/
theorem readLines_of_not_isCodeLine {s : State} {row : Nat} {lines : List (List Char)}
    (hdraft : s.draft = none) (hcode : ∀ line ∈ lines, isCodeLine line = false) :
    s.readLines row lines = s.meet (comments row lines) := by
  induction lines generalizing s row with
  | nil => rfl
  | cons line lines ih =>
    obtain ⟨hline, hlines⟩ := List.forall_mem_cons.1 hcode
    have hmeet : s.readLine row line = s.meet (comment? row line).toList := by
      rw [readLine_of_not_isCodeLine hdraft hline, meet]
      cases comment? row line <;> rfl
    rw [readLines, hmeet, ih (s := s.meet _) hdraft hlines, meet_meet, comments]

end State

/-! ## Texts one after the other -/

section Append

variable {a b : List (List Char)}

theorem scan_append :
    scan (a ++ b) = ((State.initial.readLines 0 a).readLines a.length b).finish := by
  rw [scan, State.readLines_append, Nat.zero_add]

/-- Lines that are read with other numbers give the same events with other numbers. -/
theorem finish_readLines_initial (row : Nat) (lines : List (List Char)) :
    (State.initial.readLines row lines).finish = (scan lines).map (Event.renumber (· + row)) := by
  have hf : ∀ k < lines.length, 0 + k + row = row + k := by
    intro k _
    omega
  have hinitial : State.initial = State.initial.renumber (· + row) [] := rfl
  conv_lhs => rw [hinitial]
  rw [State.readLines_renumber (· + row) [] .initial 0 row lines hf, State.finish_renumber]
  rfl

/-- The logical lines of two texts are those of the one and those of the other. -/
theorem filterMap_line?_scan_append (hdraft : (State.initial.readLines 0 a).draft = none) :
    (scan (a ++ b)).filterMap Event.line? = (scan a).filterMap Event.line? ++
      ((scan b).map (Event.renumber (· + a.length))).filterMap Event.line? := by
  have hstart : State.SameCode (State.initial.readLines 0 a).lines
      (State.initial.readLines 0 a) .initial := ⟨hdraft, rfl⟩
  have hfinish : (scan a).filterMap Event.line? =
      (State.initial.readLines 0 a).lines.reverse := by
    rw [scan, State.finish_of_draft_eq_none _ hdraft, List.filterMap_reverse]
    exact congrArg List.reverse (State.lines_reportMissing _)
  rw [scan_append, (hstart.readLines a.length b).filterMap_line?_finish,
    finish_readLines_initial, hfinish]

/-- The events of two texts are those of the one and those of the other, but that a header at the
seam waits for the next line of code before its report. -/
theorem scan_append_seam (hdraft : (State.initial.readLines 0 a).draft = none)
    (hcolumn : ∀ line, b.find? isCodeLine = some line → (Indent.measure line).1.column = 0) :
    ∃ read missing early late, scan a = read ++ missing ∧
      (scan b).map (Event.renumber (· + a.length)) = early ++ late ∧
        scan (a ++ b) = read ++ (early ++ (missing ++ late)) := by
  have hlevels := State.grounded_readLines (s := .initial) .ground 0 a
  rw [scan_append, ← finish_readLines_initial, scan]
  -- All that matters of the first text is where it leaves the reader.
  generalize State.initial.readLines 0 a = s at hdraft hlevels ⊢
  rw [State.finish_eq_append_missing s hdraft]
  cases hfind : b.find? isCodeLine with
  | none =>
    have hblank : ∀ line ∈ b, isCodeLine line = false := by simpa using hfind
    refine ⟨_, _, comments a.length b, [], rfl, ?_, ?_⟩
    · rw [State.readLines_of_not_isCodeLine rfl hblank, State.finish_eq_append_missing _ rfl]
      simp
    · rw [State.readLines_of_not_isCodeLine hdraft hblank,
        State.finish_eq_append_missing (s.meet _) hdraft]
      simp
  | some line =>
    obtain ⟨hcode, blanks, rest, rfl, hblank⟩ := List.find?_eq_some_iff_append.1 hfind
    have hblank : ∀ line ∈ blanks, isCodeLine line = false := by simpa using hblank
    refine ⟨_, _, comments a.length blanks,
      (State.initial.readLines (a.length + blanks.length) (line :: rest)).finish, rfl, ?_, ?_⟩
    · rw [State.readLines_append, State.readLines_of_not_isCodeLine rfl hblank]
      exact (State.finish_readLines_ground _ _ _).trans (by simp)
    · rw [State.readLines_append, State.readLines_of_not_isCodeLine hdraft hblank,
        State.readLines, State.readLine_of_column_eq_zero (s := s.meet _) hdraft hlevels hcode
          (hcolumn line hfind), ← State.readLines, State.finish_readLines_ground]
      simp

end Append

/-! ## Reports -/

/-- Reports stand on lines of the text. -/
theorem line_lt_of_mem_flatMap_diagnostics {options : Options} {finder : TaskComment.Finder}
    {lines : List (List Char)} {d : Diagnostic}
    (hd : d ∈ (scan lines).flatMap (Event.diagnostics options finder)) :
    d.range.start.line < lines.length := by
  -- Other numbers for other lines change nothing, so no other line can occur.
  let f : Nat → Nat := fun k => if k < lines.length then k else k + 1
  have hf : ∀ k < lines.length, f (0 + k) = 0 + k := by
    intro k hk
    simp [f, hk]
  have hscan : (scan lines).map (Event.renumber f) = scan lines := by
    have hfinish := (State.initial.readLines 0 lines).finish_renumber f []
    rw [← State.readLines_renumber f [] .initial 0 0 lines hf] at hfinish
    exact hfinish.symm
  have hreports : ((scan lines).flatMap (Event.diagnostics options finder)).map
      (Diagnostic.renumber f) = (scan lines).flatMap (Event.diagnostics options finder) := by
    conv_rhs => rw [← hscan, List.flatMap_map]
    rw [List.map_flatMap]
    simp only [Event.diagnostics_renumber]
  have hfixed : d.renumber f = d :=
    List.map_inj_left.1 (hreports.trans (List.map_id _).symm) d hd
  have hline : f d.range.start.line = d.range.start.line :=
    congrArg (fun d : Diagnostic => d.range.start.line) hfixed
  by_contra hlt
  simp [f, hlt] at hline

/-- Places keep their order on lines further down. -/
theorem precedes_renumber_add (n : Nat) (p q : Position) :
    (p.renumber (· + n)).precedes (q.renumber (· + n)) = p.precedes q := by
  unfold Position.renumber
  rw [Bool.eq_iff_iff]
  simp [Position.precedes]

theorem map_renumber_diagnostics (options : Options) (events : List Event) (n : Nat) :
    (diagnostics options events).map (Diagnostic.renumber (· + n)) =
      diagnostics options (events.map (Event.renumber (· + n))) := by
  rw [diagnostics_eq, diagnostics_eq]
  split
  · have hsort := List.map_mergeSort (r := Diagnostic.byStart) (s := Diagnostic.byStart)
      (f := Diagnostic.renumber (· + n))
      (l := events.flatMap (Event.diagnostics options (finder options)))
      fun d _ d' _ => (precedes_renumber_add n d.range.start d'.range.start).symm
    rw [hsort, List.map_flatMap, List.flatMap_map]
    simp only [Event.diagnostics_renumber]
  · rfl

/-- The reports of two texts are those of the one and those of the other. -/
theorem diagnostics_scan_append {a b : List (List Char)} (options : Options)
    (hdraft : (State.initial.readLines 0 a).draft = none)
    (hcolumn : ∀ line, b.find? isCodeLine = some line → (Indent.measure line).1.column = 0) :
    diagnostics options (scan (a ++ b)) = diagnostics options (scan a) ++
      (diagnostics options (scan b)).map (Diagnostic.renumber (· + a.length)) := by
  obtain ⟨read, missing, early, late, ha, hb, hab⟩ := scan_append_seam hdraft hcolumn
  -- The line where the second text begins parts the reports of the one from those of the other.
  let later : Diagnostic → Bool := fun d => a.length ≤ d.range.start.line
  have hlater : ∀ d d' : Diagnostic, d.byStart d' → later d → later d' := by
    intro d d' hle hd
    simp only [Diagnostic.byStart, Position.precedes, later, Bool.or_eq_true, Bool.and_eq_true,
      decide_eq_true_eq, beq_iff_eq] at *
    omega
  have hearlier : ∀ d ∈ (read ++ missing).flatMap (Event.diagnostics options (finder options)),
      later d = false := by
    rw [← ha]
    intro d hd
    simpa [later] using line_lt_of_mem_flatMap_diagnostics hd
  have hlast : ∀ d ∈ (early ++ late).flatMap (Event.diagnostics options (finder options)),
      later d = true := by
    rw [← hb, List.flatMap_map]
    intro d hd
    obtain ⟨e, -, hd⟩ := List.mem_flatMap.1 hd
    rw [Event.diagnostics_renumber] at hd
    obtain ⟨d', -, rfl⟩ := List.mem_map.1 hd
    exact decide_eq_true (Nat.le_add_left _ _)
  rw [map_renumber_diagnostics, diagnostics_eq, diagnostics_eq, diagnostics_eq, hab, ha, hb]
  split
  · simp only [List.flatMap_append] at hearlier hlast ⊢
    exact mergeSort_interleave Diagnostic.byStart_trans Diagnostic.byStart_total hlater hearlier
      hlast
  · rfl

end Layout

/-- A text that is cut at the end of a line where no logical line is open has the statements of its
two parts, those of the second as many lines down as the first has. If the first code of the second
part stands at the very left, the same holds of the reports. -/
theorem parseText_append (a b : List Char) (options : Options)
    (ha : a = [] ∨ a.getLast? = some '\n')
    (hdraft : (Layout.State.initial.readLines 0 (Text.lines a)).draft = none) :
    (parseText (a ++ b) options).outline.statements =
        (parseText a options).outline.statements ++
          (parseText b options).outline.statements.map
            (Statement.renumber (· + (Text.lines a).length)) ∧
      ((∀ line, (Text.lines b).find? Layout.isCodeLine = some line →
          (Layout.Indent.measure line).1.column = 0) →
        (parseText (a ++ b) options).diagnostics =
          (parseText a options).diagnostics ++
            (parseText b options).diagnostics.map
              (Diagnostic.renumber (· + (Text.lines a).length))) := by
  simp only [parseText, Outline.single, Text.lines_append_of_newline b ha]
  refine ⟨?_, Layout.diagnostics_scan_append options hdraft⟩
  have hshift : ∀ events : List Layout.Event,
      (Layout.statements options events).map (Statement.renumber (· + (Text.lines a).length)) =
        Layout.statements options
          (events.map (Layout.Event.renumber (· + (Text.lines a).length))) := by
    intro events
    rw [Layout.statements, Layout.statements, List.map_flatMap, List.flatMap_map]
    simp only [Layout.Event.statements_renumber]
  rw [hshift, Layout.statements_eq, Layout.statements_eq, Layout.statements_eq,
    Layout.filterMap_line?_scan_append hdraft, List.flatMap_append]

/-- The header before the seam is reported by the first line of code behind it, and by the end of
the text where the part before the seam stands alone. -/
theorem parseText_append_of_open_header :
    ("if x:\n".toList = [] ∨ "if x:\n".toList.getLast? = some '\n') ∧
      (Layout.State.initial.readLines 0 (Text.lines "if x:\n".toList)).draft = none ∧
      (parseText "if x:\n".toList .standard).diagnostics.length = 1 ∧
      (parseText ("if x:\n".toList ++ "# c\ny = (1]\n".toList) .standard).diagnostics =
        (parseText "if x:\n".toList .standard).diagnostics ++
          (parseText "# c\ny = (1]\n".toList .standard).diagnostics.map
            (Diagnostic.renumber (· + 1)) := by
  have happend := parseText_append "if x:\n".toList "# c\ny = (1]\n".toList .standard
    (.inr (by decide +kernel)) (by decide +kernel)
  refine ⟨.inr (by decide +kernel), by decide +kernel, ?_, ?_⟩
  · exact (List.length_mergeSort _).trans (by decide +kernel)
  · refine happend.2 ?_
    intro line hline
    have hcode : (Text.lines "# c\ny = (1]\n".toList).find? Layout.isCodeLine =
        some "y = (1]".toList := by decide +kernel
    rw [hcode] at hline
    cases hline
    decide +kernel

end Reparse
