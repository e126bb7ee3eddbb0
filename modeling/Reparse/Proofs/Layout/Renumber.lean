import Reparse.Proofs.Layout.Reader

/-!
The reader of lines takes the numbers of lines as they come: it writes them into places, and never
computes with them. So if the lines of a text are numbered differently, by whatever function, what
is read is the same but for the numbers. Nor does it look at the events that it has met before. One
law says both, for the reading of a line, of lines, and for the end of a text.
-/

namespace Reparse

/-- The place on the line with another number. -/
def Position.renumber (f : Nat → Nat) (p : Position) : Position :=
  ⟨f p.line, p.column⟩

/-- The stretch on lines with other numbers. -/
def Range.renumber (f : Nat → Nat) (r : Range) : Range :=
  ⟨r.start.renumber f, r.stop.renumber f⟩

@[simp]
theorem Range.wide_renumber (f : Nat → Nat) (p : Position) (columns : Nat) :
    Range.wide (p.renumber f) columns = (Range.wide p columns).renumber f := rfl

/-- The statement on lines with other numbers. -/
def Statement.renumber (f : Nat → Nat) (s : Statement) : Statement :=
  { s with range := s.range.renumber f }

/-- The report on lines with other numbers. -/
def Diagnostic.renumber (f : Nat → Nat) (d : Diagnostic) : Diagnostic :=
  { d with range := d.range.renumber f }

namespace Layout

/-- The logical line on lines with other numbers. -/
def LogicalLine.renumber (f : Nat → Nat) (l : LogicalLine) : LogicalLine :=
  { l with range := l.range.renumber f }

namespace Event

/-- The event on lines with other numbers. -/
def renumber (f : Nat → Nat) : Event → Event
  | comment start text => comment (start.renumber f) text
  | fault range f' => fault (range.renumber f) f'
  | line l => line (l.renumber f)

theorem statements_renumber (f : Nat → Nat) (version : LanguageVersion) (bind : Bool) (e : Event) :
    (e.renumber f).statements version bind =
      (e.statements version bind).map (Statement.renumber f) := by
  cases e with
  | line l =>
    simp only [renumber, statements, LogicalLine.statements, LogicalLine.sorted,
      LogicalLine.renumber, Statement.renumber, List.map_map, Function.comp_def]
  | _ => rfl

theorem report_renumber (f : Nat → Nat) (options : Options) (range : Range) (fault : Fault) :
    report options (range.renumber f) fault =
      (report options range fault).map (Diagnostic.renumber f) := by
  simp [report, Diagnostic.renumber, Function.comp_def]

theorem diagnostics_renumber (f : Nat → Nat) (options : Options) (finder : TaskComment.Finder)
    (e : Event) : (e.renumber f).diagnostics options finder =
      (e.diagnostics options finder).map (Diagnostic.renumber f) := by
  cases e with
  | comment start text =>
    simp [renumber, diagnostics, Diagnostic.renumber, Function.comp_def]
  | fault range f' => exact report_renumber f options range f'
  | line l =>
    rw [diagnostics, List.map_flatMap]
    exact congrArg (fun g => (l.faults options.version).flatMap g)
      (funext fun f' => report_renumber f options l.range f')

end Event

/-- The open bracket on a line with another number. -/
def OpenBracket.renumber (f : Nat → Nat) (b : OpenBracket) : OpenBracket :=
  { b with place := b.place.renumber f }

/-- The open string on a line with another number. -/
def OpenString.renumber (f : Nat → Nat) (o : OpenString) : OpenString :=
  { o with start := o.start.renumber f }

namespace Draft

/-- The unfinished line on lines with other numbers. -/
def renumber (f : Nat → Nat) (d : Draft) : Draft where
  start := d.start.renumber f
  stop := d.stop.renumber f
  indent := d.indent
  text := d.text
  brackets := d.brackets.map (OpenBracket.renumber f)
  string := d.string.map (OpenString.renumber f)

variable (f : Nat → Nat) (d : Draft) (pos : Position)

@[simp]
theorem mode_renumber : (d.renumber f).mode = d.mode := by
  unfold mode renumber
  cases d.string <;> rfl

theorem stack_renumber (brackets : List OpenBracket) (c : Char) :
    stack (brackets.map (OpenBracket.renumber f)) (pos.renumber f) c =
      (stack brackets pos c).map (OpenBracket.renumber f) := by
  unfold stack
  split
  · rfl
  · split <;> simp

theorem bracketFault?_renumber (brackets : List OpenBracket) (c : Char) :
    bracketFault? (brackets.map (OpenBracket.renumber f)) c = bracketFault? brackets c := by
  unfold bracketFault?
  cases brackets <;> rfl

theorem reach_renumber (p : Piece) :
    (d.renumber f).reach (pos.renumber f) p = (d.reach pos p).renumber f := by
  unfold reach
  split <;> rfl

theorem read_renumber (p : Piece) :
    (d.renumber f).read (pos.renumber f) p = (d.read pos p).renumber f := by
  cases p with
  | code c =>
    simp only [read, reach_renumber]
    simp only [renumber, stack_renumber]
  | opening q => simp only [read, reach_renumber]; rfl
  | closing q => simp only [read, reach_renumber]; rfl
  | comment text => rfl
  | _ => exact reach_renumber f d pos _

theorem event?_renumber (p : Piece) :
    (d.renumber f).event? (pos.renumber f) p = (d.event? pos p).map (Event.renumber f) := by
  cases p with
  | code c =>
    simp only [event?, renumber, bracketFault?_renumber]
    cases bracketFault? d.brackets c <;> rfl
  | _ => rfl

theorem next_renumber (p : Piece) : p.next (pos.renumber f) = (p.next pos).renumber f := by
  cases p <;> rfl

/-- The pieces of a line are read in the same way, wherever it stands and whatever has been met
before it. -/
theorem readAll_renumber (events past : List Event) (ps : List Piece) :
    (d.renumber f).readAll (pos.renumber f) (events.map (Event.renumber f) ++ past) ps =
      ((d.readAll pos events ps).1.renumber f, (d.readAll pos events ps).2.1.renumber f,
        (d.readAll pos events ps).2.2.map (Event.renumber f) ++ past) := by
  induction ps generalizing d pos events with
  | nil => rfl
  | cons p ps ih =>
    have hevents : ((d.renumber f).event? (pos.renumber f) p).toList ++
        (events.map (Event.renumber f) ++ past) =
          ((d.event? pos p).toList ++ events).map (Event.renumber f) ++ past := by
      rw [event?_renumber, List.map_append, List.append_assoc]
      cases d.event? pos p <;> rfl
    rw [readAll_cons, readAll_cons, read_renumber, next_renumber, hevents, ih]

theorem broken?_renumber (last : Option Piece) :
    (d.renumber f).broken? last = (d.broken? last).map (OpenString.renumber f) := by
  unfold broken? renumber
  cases d.string with
  | none => rfl
  | some o =>
    simp only [Option.map_some, Option.filter_some]
    change (if (!o.quote.triple && last != some .escapedBreak) = true then _ else _) = _
    split <;> rfl

theorem breakLine_renumber (last : Option Piece) :
    (d.renumber f).breakLine last = (d.breakLine last).renumber f := by
  unfold breakLine
  rw [broken?_renumber, Option.isSome_map]
  split <;> rfl

theorem isComplete_renumber (last : Option Piece) :
    (d.renumber f).isComplete last = d.isComplete last := by
  simp only [isComplete, renumber, Option.isNone_map, List.isEmpty_map]

end Draft

namespace State

/-- The reader on lines with other numbers, with events of the past before those that it has met
itself. -/
def renumber (f : Nat → Nat) (past : List Event) (s : State) : State where
  levels := s.levels
  header := s.header.map (Range.renumber f)
  draft := s.draft.map (Draft.renumber f)
  events := s.events.map (Event.renumber f) ++ past

variable (f : Nat → Nat) (past : List Event) (s : State) (d : Draft)

theorem faultIf_renumber (bad : Bool) (range : Range) (fault : Fault) :
    (s.renumber f past).faultIf bad (range.renumber f) fault =
      (s.faultIf bad range fault).renumber f past := by
  unfold faultIf
  split <;> rfl

theorem indentTo_renumber (w : Indent) (range : Range) :
    (s.renumber f past).indentTo w (range.renumber f) = (s.indentTo w range).renumber f past := by
  have hheader : (s.renumber f past).header.isNone = s.header.isNone := Option.isNone_map
  simp only [indentTo, hheader, faultIf_renumber]
  rfl

theorem reportMissing_renumber :
    (s.renumber f past).reportMissing = s.reportMissing.renumber f past := by
  obtain ⟨levels, header, draft, events⟩ := s
  cases header <;> rfl

theorem dedentTo_renumber (w : Indent) (range : Range) :
    (s.renumber f past).dedentTo w (range.renumber f) = (s.dedentTo w range).renumber f past := by
  have hlevels : (s.renumber f past).levels = s.levels := rfl
  simp only [dedentTo_eq, hlevels, reportMissing_renumber, faultIf_renumber]
  split <;> rfl

theorem indent_renumber (w : Indent) (range : Range) :
    (s.renumber f past).indent w (range.renumber f) = (s.indent w range).renumber f past := by
  have hlevels : (s.renumber f past).levels = s.levels := rfl
  simp only [indent, hlevels, indentTo_renumber, dedentTo_renumber]
  split <;> rfl

theorem close_renumber :
    (s.renumber f past).close (d.renumber f) = (s.close d).renumber f past := by
  have hfinish : (d.renumber f).finish = d.finish.renumber f := rfl
  have hheader : (d.finish.renumber f).isHeader = d.finish.isHeader := rfl
  simp only [close, hfinish, hheader]
  cases d.finish.isHeader <;> rfl

theorem reportBroken_renumber (broken : Option OpenString) (pos : Position) :
    (s.renumber f past).reportBroken (broken.map (OpenString.renumber f)) (pos.renumber f) =
      (s.reportBroken broken pos).renumber f past := by
  cases broken <;> rfl

theorem endLine_renumber (pos : Position) (last : Option Piece) :
    (s.renumber f past).endLine (d.renumber f) (pos.renumber f) last =
      (s.endLine d pos last).renumber f past := by
  simp only [endLine_eq, Draft.broken?_renumber, Draft.breakLine_renumber,
    Draft.isComplete_renumber, reportBroken_renumber, close_renumber]
  split <;> rfl

theorem readCode_renumber (pos : Position) (line : List Char) :
    (s.renumber f past).readCode (d.renumber f) (pos.renumber f) line =
      (s.readCode d pos line).renumber f past := by
  have hevents : (s.renumber f past).events = s.events.map (Event.renumber f) ++ past := rfl
  rw [readCode_eq, readCode_eq, Draft.mode_renumber, hevents, Draft.readAll_renumber]
  exact endLine_renumber f past
    { s with events := (d.readAll pos s.events (pieces d.mode line)).2.2 }
    (d.readAll pos s.events (pieces d.mode line)).1
    (d.readAll pos s.events (pieces d.mode line)).2.1 (pieces d.mode line).getLast?

/-- A line is read in the same way under another number. -/
theorem readLine_renumber (row : Nat) (line : List Char) :
    (s.renumber f past).readLine (f row) line = (s.readLine row line).renumber f past := by
  obtain ⟨levels, header, draft, events⟩ := s
  cases draft with
  | some d => exact readCode_renumber f past ⟨levels, header, some d, events⟩ d ⟨row, 0⟩ line
  | none =>
    have hindent := indent_renumber f past ⟨levels, header, none, events⟩
    simp only [readLine, renumber, Option.map_none]
    obtain ⟨w, column, rest⟩ := Indent.measure line
    cases rest with
    | nil => rfl
    | cons c rest =>
      dsimp only
      split
      · rfl
      · exact (congrArg (fun t => State.readCode t _ _ _)
          (hindent w ⟨⟨row, 0⟩, ⟨row, column⟩⟩)).trans
          (readCode_renumber f past _ (.begin ⟨row, column⟩ w.column) ⟨row, column⟩ (c :: rest))

/-- Lines are read in the same way under other numbers that follow one another. -/
theorem readLines_renumber (row row' : Nat) (lines : List (List Char))
    (hf : ∀ k < lines.length, f (row + k) = row' + k) :
    (s.renumber f past).readLines row' lines = (s.readLines row lines).renumber f past := by
  induction lines generalizing s row row' with
  | nil => rfl
  | cons line lines ih =>
    have hrow : f row = row' := by simpa using hf 0 (by simp)
    rw [readLines, readLines, ← hrow, readLine_renumber]
    refine ih _ (row + 1) (f row + 1) ?_
    intro k hk
    rw [show row + 1 + k = row + (k + 1) by omega, hf (k + 1) (by simpa using hk)]
    omega

theorem reportUnclosed_renumber (string : Option OpenString) (brackets : List OpenBracket) :
    (s.renumber f past).reportUnclosed (string.map (OpenString.renumber f))
        (brackets.map (OpenBracket.renumber f)) =
      (s.reportUnclosed string brackets).renumber f past := by
  induction brackets with
  | nil => cases string <;> rfl
  | cons b brackets ih => exact congrArg (fun t => State.emit t _) ih

theorem abandon_renumber :
    (s.renumber f past).abandon (d.renumber f) = (s.abandon d).renumber f past := by
  have hunclosed := reportUnclosed_renumber f past s d.string d.brackets
  exact (congrArg (fun t => State.close t (d.renumber f)) hunclosed).trans
    (close_renumber f past _ d)

theorem abandonOpen_renumber :
    (s.renumber f past).abandonOpen = s.abandonOpen.renumber f past := by
  obtain ⟨levels, header, draft, events⟩ := s
  cases draft with
  | none => rfl
  | some d => exact abandon_renumber f past ⟨levels, header, some d, events⟩ d

/-- The end of a text is the same on lines with other numbers, and the events of the past come
first. -/
theorem finish_renumber :
    (s.renumber f past).finish = past.reverse ++ s.finish.map (Event.renumber f) := by
  rw [finish_eq, finish_eq, abandonOpen_renumber, reportMissing_renumber]
  simp only [renumber, List.reverse_append, List.map_reverse]

end State

end Layout

end Reparse
