import Reparse.Parse

/-!
What each step of the reader touches. The indentations and the header that awaits its block are
changed only where a logical line begins or ends, the unfinished line only where code is read, and
events are only added. `State.readLine_cases` says once what the reading of a line can be.
-/

namespace Reparse.Layout

/-- The place behind a piece. A comment ends its line, so nothing is read behind it. -/
def Piece.next (pos : Position) : Piece → Position
  | comment _ => pos
  | p => pos.right (Text.width16 p.chars)

namespace Draft

variable (d : Draft) (pos : Position) (events : List Event)

@[simp]
theorem readAll_nil : d.readAll pos events [] = (d, pos, events) := rfl

theorem readAll_cons (p : Piece) (ps : List Piece) :
    d.readAll pos events (p :: ps) =
      (d.read pos p).readAll (p.next pos) ((d.event? pos p).toList ++ events) ps := by
  cases p <;> rfl

/-- The events of pieces are put before those that there are, which do not matter otherwise. -/
theorem readAll_eq (ps : List Piece) :
    d.readAll pos events ps =
      ((d.readAll pos [] ps).1, (d.readAll pos [] ps).2.1,
        (d.readAll pos [] ps).2.2 ++ events) := by
  induction ps generalizing d pos events with
  | nil => rfl
  | cons p ps ih =>
    rw [readAll_cons, readAll_cons, ih, ih _ _ ((d.event? pos p).toList ++ [])]
    simp

/-- The string that ends with the physical line although it is not closed: one with a single
delimiter, unless the end of the line is escaped. -/
def broken? (last : Option Piece) : Option OpenString :=
  d.string.filter fun o => !o.quote.triple && last != some .escapedBreak

/-- The line without the string that ends with the physical line. -/
def breakLine (last : Option Piece) : Draft :=
  if (d.broken? last).isSome then { d with string := none } else d

/-- The logical line ends with the physical one. -/
def isComplete (last : Option Piece) : Bool :=
  d.string.isNone && d.brackets.isEmpty && last != some .continuation

end Draft

/-- The line has code: it is not blank, nor has it nothing but a comment. -/
def isCodeLine (line : List Char) : Bool :=
  match (Indent.measure line).2.2 with
  | [] => false
  | c :: _ => c != '#'

/-- The comment of a line that has no code, if it has one. -/
def comment? (row : Nat) (line : List Char) : Option Event :=
  match (Indent.measure line).2.2 with
  | [] => none
  | text => some (.comment ⟨row, (Indent.measure line).2.1⟩ text)

namespace State

variable (s : State) (d : Draft)

@[simp]
theorem draft_faultIf (bad : Bool) (range : Range) (f : Fault) :
    (s.faultIf bad range f).draft = s.draft := by
  unfold faultIf
  split <;> rfl

@[simp]
theorem levels_faultIf (bad : Bool) (range : Range) (f : Fault) :
    (s.faultIf bad range f).levels = s.levels := by
  unfold faultIf
  split <;> rfl

/-- The reader after the report that a header has no block, if one awaits it. -/
def reportMissing (s : State) : State :=
  match s.header with
  | some header => s.emit (.fault header .missingBlock)
  | none => s

/-- The reader after the report of the string that has ended with the physical line, if one has. -/
def reportBroken (s : State) (broken : Option OpenString) (pos : Position) : State :=
  match broken with
  | some o => s.emit (.fault ⟨o.start, pos⟩ .unterminatedString)
  | none => s

@[simp]
theorem draft_reportMissing : s.reportMissing.draft = s.draft := by
  unfold reportMissing
  split <;> rfl

@[simp]
theorem levels_reportMissing : s.reportMissing.levels = s.levels := by
  unfold reportMissing
  split <;> rfl

theorem dedentTo_eq (w : Indent) (range : Range) :
    s.dedentTo w range =
      let levels := s.levels.dropWhile fun t => w.column < t.column
      if w.column ≠ (level levels).column then
        { s.reportMissing.emit (.fault range .unindentMismatch) with
          levels := w :: levels, header := none }
      else
        { s.reportMissing.faultIf (w.narrow != (level levels).narrow) range .mixedIndent with
          levels, header := none } := by
  rw [← levels_reportMissing]
  rfl

/-- The reader after the reports of what is open when the text ends: the string and the brackets of
the unfinished line, the outermost bracket first. -/
def reportUnclosed (s : State) (string : Option OpenString) (brackets : List OpenBracket) : State :=
  let s := match string with
    | some o =>
      let f := if o.quote.triple then Fault.unterminatedTriple else .unterminatedString
      s.emit (.fault (.wide o.start o.quote.width) f)
    | none => s
  brackets.foldr (fun b s => s.emit (.fault (.wide b.place 1) (.neverClosed b.opener))) s

/-- The reader after the logical line that is open when the text ends has been abandoned. -/
def abandonOpen (s : State) : State :=
  match s.draft with
  | some d => s.abandon d
  | none => s

theorem finish_eq : s.finish = s.abandonOpen.reportMissing.events.reverse := rfl

theorem finish_of_draft_eq_none (h : s.draft = none) :
    s.finish = s.reportMissing.events.reverse := by
  rw [finish_eq, abandonOpen, h]

@[simp]
theorem draft_indent (w : Indent) (range : Range) : (s.indent w range).draft = s.draft := by
  unfold indent
  split
  · simp [indentTo]
  · rw [dedentTo_eq]
    dsimp only
    split <;> simp [emit]

theorem endLine_eq (pos : Position) (last : Option Piece) :
    s.endLine d pos last =
      let t := s.reportBroken (d.broken? last) pos
      if (d.breakLine last).isComplete last then t.close (d.breakLine last)
      else
        { t with draft := some { d.breakLine last with text := ' ' :: (d.breakLine last).text } } :=
  rfl

/-- A logical line that goes on behind a physical line has a blank more for the end of that. -/
theorem endLine_of_not_isComplete (pos : Position) {last : Option Piece}
    (hbroken : d.broken? last = none) (hcomplete : d.isComplete last = false) :
    s.endLine d pos last = { s with draft := some { d with text := ' ' :: d.text } } := by
  have hbreak : d.breakLine last = d := by
    rw [Draft.breakLine, hbroken, Option.isSome_none, if_neg Bool.false_ne_true]
  rw [endLine_eq, hbreak, hbroken, hcomplete, if_neg Bool.false_ne_true]
  rfl

@[simp]
theorem levels_reportBroken (broken : Option OpenString) (pos : Position) :
    (s.reportBroken broken pos).levels = s.levels := by
  cases broken <;> rfl

@[simp]
theorem levels_endLine (pos : Position) (last : Option Piece) :
    (s.endLine d pos last).levels = s.levels := by
  rw [endLine_eq]
  dsimp only
  split <;> simp [close]

theorem readCode_eq (pos : Position) (line : List Char) :
    s.readCode d pos line =
      State.endLine { s with events := (d.readAll pos s.events (pieces d.mode line)).2.2 }
        (d.readAll pos s.events (pieces d.mode line)).1
        (d.readAll pos s.events (pieces d.mode line)).2.1 (pieces d.mode line).getLast? :=
  rfl

/-- Reads pieces as the rest of a physical line. -/
def readPieces (s : State) (d : Draft) (pos : Position) (ps : List Piece) : State :=
  State.endLine { s with events := (d.readAll pos s.events ps).2.2 } (d.readAll pos s.events ps).1
    (d.readAll pos s.events ps).2.1 ps.getLast?

theorem readCode_eq_readPieces (pos : Position) (line : List Char) :
    s.readCode d pos line = s.readPieces d pos (pieces d.mode line) := rfl

/-- The unfinished logical line is the one that is given, whichever the reader has. -/
theorem readPieces_draft (draft : Option Draft) (pos : Position) (ps : List Piece) :
    State.readPieces { s with draft } d pos ps = s.readPieces d pos ps := by
  unfold readPieces
  rw [endLine_eq, endLine_eq]
  generalize Draft.broken? _ _ = broken
  cases broken <;> rfl

@[simp]
theorem levels_readCode (pos : Position) (line : List Char) :
    (s.readCode d pos line).levels = s.levels :=
  levels_endLine _ _ _ _

/-- What the reading of a line is: code of the logical line that is open, or else a comment or
nothing, or code that begins a logical line. -/
theorem readLine_cases (row : Nat) (line : List Char) :
    (∃ d, s.draft = some d ∧ s.readLine row line = s.readCode d ⟨row, 0⟩ line) ∨
      s.draft = none ∧
        (isCodeLine line = false ∧
            s.readLine row line = { s with events := (comment? row line).toList ++ s.events } ∨
          isCodeLine line = true ∧ s.readLine row line =
            (s.indent (Indent.measure line).1
                ⟨⟨row, 0⟩, ⟨row, (Indent.measure line).2.1⟩⟩).readCode
              (.begin ⟨row, (Indent.measure line).2.1⟩ (Indent.measure line).1.column)
              ⟨row, (Indent.measure line).2.1⟩ (Indent.measure line).2.2) := by
  obtain ⟨levels, header, draft, events⟩ := s
  cases draft with
  | some d => exact .inl ⟨d, rfl, rfl⟩
  | none =>
    refine .inr ⟨rfl, ?_⟩
    simp only [readLine, isCodeLine, comment?]
    generalize (Indent.measure line).2.2 = rest
    cases rest with
    | nil => exact .inl ⟨rfl, rfl⟩
    | cons c rest =>
      by_cases hc : c = '#'
      · exact .inl ⟨by simp [hc], by simp [hc, emit]⟩
      · exact .inr ⟨by simp [hc], by simp only [hc, if_false]⟩

variable {s} {row : Nat} {line : List Char}

theorem readLine_of_draft {d : Draft} (hdraft : s.draft = some d) :
    s.readLine row line = s.readPieces d ⟨row, 0⟩ (pieces d.mode line) := by
  rw [readLine, hdraft]
  rfl

theorem readLine_of_not_isCodeLine (hdraft : s.draft = none) (hcode : isCodeLine line = false) :
    s.readLine row line = { s with events := (comment? row line).toList ++ s.events } := by
  rcases s.readLine_cases row line with ⟨d, hd, -⟩ | ⟨-, ⟨-, hnone⟩ | ⟨hcode', -⟩⟩
  · exact absurd (hd.symm.trans hdraft) (by simp)
  · exact hnone
  · exact absurd (hcode'.symm.trans hcode) (by simp)

theorem readLine_of_isCodeLine (hdraft : s.draft = none) (hcode : isCodeLine line = true) :
    s.readLine row line =
      (s.indent (Indent.measure line).1
          ⟨⟨row, 0⟩, ⟨row, (Indent.measure line).2.1⟩⟩).readCode
        (.begin ⟨row, (Indent.measure line).2.1⟩ (Indent.measure line).1.column)
        ⟨row, (Indent.measure line).2.1⟩ (Indent.measure line).2.2 := by
  rcases s.readLine_cases row line with ⟨d, hd, -⟩ | ⟨-, ⟨hcode', -⟩ | ⟨-, hbegin⟩⟩
  · exact absurd (hd.symm.trans hdraft) (by simp)
  · exact absurd (hcode'.symm.trans hcode) (by simp)
  · exact hbegin

end State

/-! ## The logical lines that are finished -/

/-- The logical line that an event finishes. -/
def Event.line? : Event → Option LogicalLine
  | line l => some l
  | _ => none

/-- Pieces finish no logical line. -/
theorem Draft.filterMap_line?_readAll (d : Draft) (pos : Position) (events : List Event)
    (ps : List Piece) :
    (d.readAll pos events ps).2.2.filterMap Event.line? = events.filterMap Event.line? := by
  induction ps generalizing d pos events with
  | nil => rfl
  | cons p ps ih =>
    rw [readAll_cons, ih, List.filterMap_append]
    cases p with
    | code c =>
      rw [event?]
      cases bracketFault? d.brackets c <;> rfl
    | _ => rfl

namespace State

/-- The logical lines that are finished, newest first. -/
def lines (s : State) : List LogicalLine :=
  s.events.filterMap Event.line?

variable (s : State)

@[simp]
theorem lines_faultIf (bad : Bool) (range : Range) (f : Fault) :
    (s.faultIf bad range f).lines = s.lines := by
  unfold faultIf
  split <;> rfl

@[simp]
theorem lines_reportMissing : s.reportMissing.lines = s.lines := by
  unfold reportMissing
  split <;> rfl

@[simp]
theorem lines_reportBroken (broken : Option OpenString) (pos : Position) :
    (s.reportBroken broken pos).lines = s.lines := by
  cases broken <;> rfl

@[simp]
theorem lines_reportUnclosed (string : Option OpenString) (brackets : List OpenBracket) :
    (s.reportUnclosed string brackets).lines = s.lines := by
  induction brackets with
  | nil => cases string <;> rfl
  | cons b brackets ih => exact ih

@[simp]
theorem lines_indent (w : Indent) (range : Range) : (s.indent w range).lines = s.lines := by
  unfold indent
  split
  · exact (lines_faultIf _ _ _ _).trans (lines_faultIf _ _ _ _)
  · rw [dedentTo_eq]
    dsimp only
    split
    · exact lines_reportMissing s
    · exact (lines_faultIf _ _ _ _).trans (lines_reportMissing s)

theorem lines_comment? (row : Nat) (line : List Char) :
    State.lines { s with events := (comment? row line).toList ++ s.events } = s.lines := by
  rw [lines, List.filterMap_append]
  unfold comment?
  split <;> rfl

/-- What the reading of each line of a text keeps, the reading of the text keeps. -/
theorem readLines_induction {motive : Nat → State → Prop} {ls : List (List Char)}
    (step : ∀ row s line, ls[row]? = some line → motive row s →
      motive (row + 1) (s.readLine row line))
    {s : State} (h : motive 0 s) : motive ls.length (s.readLines 0 ls) := by
  have hrun : ∀ lines row (s : State), ls.drop row = lines → motive row s →
      motive (row + lines.length) (s.readLines row lines) := by
    intro lines
    induction lines with
    | nil => exact fun _ _ _ h => h
    | cons line lines ih =>
      intro row s hlines h
      have hline : ls[row]? = some line := by
        rw [← Nat.add_zero row, ← List.getElem?_drop, hlines]
        rfl
      have hrest : ls.drop (row + 1) = lines := by
        rw [← List.tail_drop, hlines]
        rfl
      rw [List.length_cons, Nat.add_comm lines.length, ← Nat.add_assoc]
      exact ih (row + 1) _ hrest (step row s line hline h)
  have hall := hrun ls 0 s rfl h
  rwa [Nat.zero_add] at hall

end State

/-! ## The events that code brings -/

/-- Code can bring the event: it is a comment, a logical line, or a fault that has nothing to do with
indentations and blocks. -/
def Event.isOfCode : Event → Bool
  | fault _ f => f ∉ [.unexpectedIndent, .missingBlock, .unindentMismatch, .mixedIndent]
  | _ => true

/-- The later events (newest first) are the earlier ones with what code has brought in front. -/
def BroughtByCode (earlier later : List Event) : Prop :=
  ∃ more, later = more ++ earlier ∧ ∀ e ∈ more, e.isOfCode = true

namespace BroughtByCode

variable {earlier events later : List Event}

theorem refl (events : List Event) : BroughtByCode events events :=
  ⟨[], rfl, nofun⟩

theorem trans (h : BroughtByCode earlier events) (h' : BroughtByCode events later) :
    BroughtByCode earlier later := by
  obtain ⟨more, rfl, hmore⟩ := h
  obtain ⟨more', rfl, hmore'⟩ := h'
  refine ⟨more' ++ more, (List.append_assoc _ _ _).symm, ?_⟩
  intro e he
  rcases List.mem_append.1 he with he | he
  · exact hmore' e he
  · exact hmore e he

theorem cons (h : BroughtByCode earlier later) {e : Event} (he : e.isOfCode = true) :
    BroughtByCode earlier (e :: later) := by
  apply h.trans
  exact ⟨[e], rfl, List.forall_mem_singleton.2 he⟩

/-- What is so of all the events that code can bring is so after code if it was so before. -/
theorem all_eq {p : Event → Bool} (h : BroughtByCode earlier later)
    (hp : ∀ e : Event, e.isOfCode = true → p e = true) : later.all p = earlier.all p := by
  obtain ⟨more, rfl, hmore⟩ := h
  have hall : more.all p = true := List.all_eq_true.2 fun e he => hp e (hmore e he)
  rw [List.all_append, hall, Bool.true_and]

/-- What is looked for in none of the events that code can bring is found where it was before. -/
theorem filterMap_eq {α : Type} {f : Event → Option α} (h : BroughtByCode earlier later)
    (hf : ∀ e : Event, e.isOfCode = true → f e = none) :
    later.filterMap f = earlier.filterMap f := by
  obtain ⟨more, rfl, hmore⟩ := h
  have hnone : more.filterMap f = [] :=
    List.filterMap_eq_nil_iff.2 fun e he => hf e (hmore e he)
  rw [List.filterMap_append, hnone, List.nil_append]

end BroughtByCode

theorem Draft.isOfCode_event? (d : Draft) (pos : Position) (p : Piece) :
    ∀ e ∈ d.event? pos p, e.isOfCode = true := by
  intro e he
  cases p with
  | code c =>
    obtain ⟨f, hf, rfl⟩ := Option.map_eq_some_iff.1 he
    unfold bracketFault? at hf
    split at hf
    · split at hf
      · cases hf
        rfl
      · split at hf <;> cases hf
        rfl
    · cases hf
  | comment text =>
    cases he
    rfl
  | _ => cases he

theorem Draft.brought_readAll (d : Draft) (pos : Position) (events : List Event)
    (ps : List Piece) : BroughtByCode events (d.readAll pos events ps).2.2 := by
  induction ps generalizing d pos events with
  | nil => exact .refl events
  | cons p ps ih =>
    have hevent : BroughtByCode events ((d.event? pos p).toList ++ events) :=
      ⟨_, rfl, fun e he => d.isOfCode_event? pos p e (Option.mem_toList.1 he)⟩
    rw [readAll_cons]
    exact hevent.trans (ih _ _ _)

namespace State

variable (s : State)

theorem brought_reportBroken (broken : Option OpenString) (pos : Position) :
    BroughtByCode s.events (s.reportBroken broken pos).events := by
  cases broken with
  | none => exact .refl _
  | some o => exact (BroughtByCode.refl _).cons rfl

theorem brought_close (d : Draft) : BroughtByCode s.events (s.close d).events :=
  (BroughtByCode.refl _).cons rfl

theorem brought_endLine (d : Draft) (pos : Position) (last : Option Piece) :
    BroughtByCode s.events (s.endLine d pos last).events := by
  have hbroken := s.brought_reportBroken (d.broken? last) pos
  rw [endLine_eq]
  dsimp only
  split
  · exact hbroken.trans (brought_close _ _)
  · exact hbroken

theorem brought_readCode (d : Draft) (pos : Position) (line : List Char) :
    BroughtByCode s.events (s.readCode d pos line).events := by
  have hread := d.brought_readAll pos s.events (pieces d.mode line)
  rw [readCode_eq]
  exact hread.trans (brought_endLine _ _ _ _)

theorem brought_comment? (row : Nat) (line : List Char) :
    BroughtByCode s.events ((comment? row line).toList ++ s.events) := by
  unfold comment?
  split
  · exact .refl _
  · exact (BroughtByCode.refl _).cons rfl

theorem brought_reportUnclosed (string : Option OpenString) (brackets : List OpenBracket) :
    BroughtByCode s.events (s.reportUnclosed string brackets).events := by
  induction brackets with
  | nil =>
    cases string with
    | none => exact .refl _
    | some o =>
      apply (BroughtByCode.refl s.events).cons
      split <;> rfl
  | cons b brackets ih => exact ih.cons rfl

theorem brought_abandonOpen : BroughtByCode s.events s.abandonOpen.events := by
  unfold abandonOpen
  cases s.draft with
  | none => exact .refl _
  | some d => exact (s.brought_reportUnclosed d.string d.brackets).trans (brought_close _ d)

end State

end Reparse.Layout
