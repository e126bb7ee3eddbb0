import Reparse.Proofs.Layout.Blocks
import Reparse.Proofs.Layout.Findings

/-!
What is reported of blocks. As long as the reader has found nothing wrong with the blocks, what it
keeps between two lines is what `Nest` keeps after the logical lines so far; as soon as it has,
`Nest` has refused a line. So the reports decide the grammar of blocks.
-/

namespace Reparse

/-- The faults of blocks. -/
def Fault.ofBlocks : List Fault := [unexpectedIndent, missingBlock, unindentMismatch]

namespace Layout

namespace Event

/-- The event is no fault of blocks. -/
def isSound : Event → Bool
  | fault _ f => f ∉ Fault.ofBlocks
  | _ => true

theorem isSound_of_isOfCode (e : Event) (h : e.isOfCode = true) : e.isSound = true := by
  cases e with
  | fault range f => cases f <;> first | rfl | cases h
  | _ => rfl

end Event

/-! ## Code is no matter of blocks -/

namespace Draft

variable (d : Draft) (pos : Position) (events : List Event)

theorem indent_read (p : Piece) : (d.read pos p).indent = d.indent := by
  cases p <;> simp only [read, reach] <;> split <;> rfl

theorem indent_readAll (ps : List Piece) : (d.readAll pos events ps).1.indent = d.indent := by
  induction ps generalizing d pos events with
  | nil => rfl
  | cons p ps ih => rw [readAll_cons, ih, indent_read]

theorem indent_breakLine (last : Option Piece) : (d.breakLine last).indent = d.indent := by
  unfold breakLine
  split <;> rfl

end Draft

namespace State

/-- Nothing is wrong with the blocks so far. -/
def isSound (s : State) : Bool :=
  s.events.all Event.isSound

/-- The columns of the indentations that are open, innermost first. -/
def columns (s : State) : List Nat :=
  s.stack.map Indent.column

variable (s : State)

theorem isSound_emit (range : Range) (f : Fault) :
    (s.emit (.fault range f)).isSound = (decide (f ∉ Fault.ofBlocks) && s.isSound) := rfl

theorem isSound_faultIf (bad : Bool) (range : Range) (f : Fault) :
    (s.faultIf bad range f).isSound = (!(bad && decide (f ∈ Fault.ofBlocks)) && s.isSound) := by
  unfold faultIf
  cases bad with
  | true => simp [isSound_emit]
  | false => simp

theorem isSound_reportMissing : s.reportMissing.isSound = (s.header.isNone && s.isSound) := by
  unfold reportMissing
  cases s.header <;> rfl

theorem header_reportUnclosed (string : Option OpenString) (brackets : List OpenBracket) :
    (s.reportUnclosed string brackets).header = s.header := by
  induction brackets with
  | nil => cases string <;> rfl
  | cons b brackets ih => exact ih

theorem levels_reportUnclosed (string : Option OpenString) (brackets : List OpenBracket) :
    (s.reportUnclosed string brackets).levels = s.levels := by
  induction brackets with
  | nil => cases string <;> rfl
  | cons b brackets ih => exact ih

/-- What is open between two lines, as far as blocks go. -/
def nest (s : State) : Nest :=
  ⟨s.columns, s.header.isSome⟩

/-- What `Nest` makes of the logical lines that are finished. -/
def nest? (s : State) : Option Nest :=
  s.lines.reverse.foldlM Nest.step? .initial

/-- In the middle of a logical line, `Nest` has let the line in as long as nothing is wrong, and has
refused it or a line before it as soon as something is. -/
structure TracksIn (s : State) (d : Draft) : Prop where
  header : s.header = none
  enter? : s.nest?.bind (·.enter? d.indent) = if s.isSound then some s.columns else none

/-- Between two lines, `Nest` keeps what the reader keeps as long as nothing is wrong. -/
def Tracks (s : State) : Prop :=
  match s.draft with
  | none => s.nest? = if s.isSound then some s.nest else none
  | some d => s.TracksIn d

theorem headD_columns : s.columns.headD 0 = (level s.levels).column := by
  unfold columns stack
  cases s.levels <;> rfl

/-- The ground is never left. -/
theorem dropWhile_columns (column : Nat) :
    s.columns.dropWhile (column < ·) =
      ((s.levels.dropWhile fun t : Indent => column < t.column) ++ [Indent.ground]).map
        Indent.column := by
  unfold columns stack
  generalize s.levels = levels
  induction levels with
  | nil => rfl
  | cons top levels ih =>
    simp only [List.cons_append, List.map_cons, List.dropWhile_cons] at ih ⊢
    split
    · exact ih
    · rfl

theorem head?_map_column (levels : List Indent) :
    ((levels ++ [Indent.ground]).map Indent.column).head? = some (level levels).column := by
  cases levels <;> rfl

/-- From `s` to `t` a logical line has begun. It has been let in, with these columns open, or else
something is wrong. -/
structure Enters (s t : State) (columns? : Option (List Nat)) : Prop where
  header : t.header = none
  isSound : t.isSound = (columns?.isSome && s.isSound)
  columns : ∀ columns, columns? = some columns → t.columns = columns

/-- Mixed tabs and spaces are no fault of blocks. -/
theorem isSound_reportMixed (bad : Bool) (range : Range) :
    (s.faultIf bad range .mixedIndent).isSound = s.isSound := by
  simp [isSound_faultIf, Fault.ofBlocks]

theorem indentTo_enters (w : Indent) (range : Range) :
    s.Enters (s.indentTo w range)
      (if s.header.isSome then some (w.column :: s.columns) else none) where
  header := rfl
  isSound := by
    refine (isSound_reportMixed _ _ _).trans ?_
    rw [isSound_faultIf]
    cases s.header <;> rfl
  columns := by
    intro columns hcolumns
    rw [Option.ite_none_right_eq_some, Option.some.injEq] at hcolumns
    rw [← hcolumns.2]
    simp [State.columns, stack, indentTo]

theorem dedentTo_enters (w : Indent) (range : Range) :
    s.Enters (s.dedentTo w range)
      (let left := s.columns.dropWhile (w.column < ·)
      if s.header.isSome = false ∧ left.head? = some w.column then some left else none) := by
  rw [dedentTo_eq, dropWhile_columns]
  dsimp only
  rw [head?_map_column]
  generalize s.levels.dropWhile (fun t => w.column < t.column) = levels
  split
  · rename_i hne
    rw [if_neg fun h => hne (Option.some.inj h.2).symm]
    exact ⟨rfl, rfl, nofun⟩
  · rename_i heq
    obtain heq : w.column = (level levels).column := not_ne_iff.1 heq
    refine ⟨rfl, ?_, ?_⟩
    · refine (isSound_reportMixed _ _ _).trans ?_
      rw [isSound_reportMissing, heq]
      cases s.header <;> simp
    · intro columns hcolumns
      exact Option.some.inj (Option.ite_none_right_eq_some.1 hcolumns).2

/-- A logical line is let in where nothing is wrong with its indentation. -/
theorem indent_enters (w : Indent) (range : Range) :
    s.Enters (s.indent w range) (s.nest.enter? w.column) := by
  unfold State.indent Nest.enter? nest
  rw [headD_columns]
  dsimp only
  split
  · exact s.indentTo_enters w range
  · exact s.dedentTo_enters w range

variable {s}

/-! ## From line to line -/

theorem TracksIn.of_same {t : State} {d d' : Draft} (h : s.TracksIn d)
    (hheader : t.header = s.header) (hlines : t.lines = s.lines) (hlevels : t.levels = s.levels)
    (hsound : t.isSound = s.isSound) (hindent : d'.indent = d.indent) : t.TracksIn d' where
  header := hheader.trans h.header
  enter? := by
    have hnest : t.nest? = s.nest? := by rw [nest?, nest?, hlines]
    have hcolumns : t.columns = s.columns := by rw [columns, columns, stack, stack, hlevels]
    rw [hnest, hindent, hsound, hcolumns]
    exact h.enter?

/-- A logical line that ends may be a header. -/
theorem TracksIn.close {d : Draft} (h : s.TracksIn d) : (s.close d).Tracks := by
  have hnest : (s.close d).nest? =
      (s.nest?.bind (·.enter? d.indent)).map (⟨·, d.finish.isHeader⟩) := by
    have hlines : (s.close d).lines = d.finish :: s.lines := rfl
    rw [nest?, hlines, List.reverse_cons, List.foldlM_append, Option.map_bind]
    simp only [List.foldlM_cons, List.foldlM_nil, bind_pure]
    rfl
  have hsound : (s.close d).isSound = s.isSound := rfl
  have hcolumns : (s.close d).columns = s.columns := rfl
  have hheader : (s.close d).header.isSome = d.finish.isHeader := by
    simp only [State.close]
    split <;> simp [*]
  show (s.close d).nest? = _
  rw [hnest, h.enter?, hsound, nest, hcolumns, hheader]
  split <;> rfl

theorem TracksIn.endLine {d : Draft} (h : s.TracksIn d) (pos : Position) (last : Option Piece) :
    (s.endLine d pos last).Tracks := by
  have hbroken : (s.reportBroken (d.broken? last) pos).TracksIn (d.breakLine last) := by
    refine h.of_same ?_ ?_ ?_ ?_ (d.indent_breakLine last)
    · cases d.broken? last <;> rfl
    · exact s.lines_reportBroken _ _
    · exact s.levels_reportBroken _ _
    · exact (s.brought_reportBroken _ _).all_eq Event.isSound_of_isOfCode
  rw [endLine_eq]
  dsimp only
  split
  · exact hbroken.close
  · exact hbroken.of_same rfl rfl rfl rfl rfl

theorem TracksIn.readCode {d : Draft} (h : s.TracksIn d) (pos : Position) (line : List Char) :
    (s.readCode d pos line).Tracks := by
  let all := d.readAll pos s.events (pieces d.mode line)
  have hread : State.TracksIn { s with events := all.2.2 } all.1 :=
    h.of_same rfl (d.filterMap_line?_readAll pos s.events _) rfl
      ((d.brought_readAll pos s.events _).all_eq Event.isSound_of_isOfCode)
      (d.indent_readAll pos s.events _)
  rw [readCode_eq]
  exact hread.endLine all.2.1 _

/-- A logical line begins. -/
theorem Tracks.indent (h : s.Tracks) (hdraft : s.draft = none) (w : Indent) (range : Range)
    {d : Draft} (hd : d.indent = w.column) : (s.indent w range).TracksIn d := by
  have henters := s.indent_enters w range
  have hnest : (s.indent w range).nest? = s.nest? := by
    rw [nest?, nest?, lines_indent]
  unfold Tracks at h
  rw [hdraft] at h
  refine ⟨henters.header, ?_⟩
  rw [hnest, h, hd, henters.isSound]
  cases hsound : s.isSound with
  | false => simp
  | true =>
    cases henter : s.nest.enter? w.column with
    | none => simp [henter]
    | some columns => simp [henter, henters.columns columns henter]

/-- A comment on a line of its own is no matter of blocks. -/
theorem Tracks.comment (h : s.Tracks) (hdraft : s.draft = none) (row : Nat) (line : List Char) :
    State.Tracks { s with events := (comment? row line).toList ++ s.events } := by
  have hcomment : comment? row line = none ∨
      ∃ pos text, comment? row line = some (.comment pos text) := by
    unfold comment?
    split
    · exact .inl rfl
    · exact .inr ⟨_, _, rfl⟩
  rcases hcomment with hnone | ⟨pos, text, hsome⟩
  · rw [hnone]
    exact h
  · rw [hsome]
    unfold Tracks at h ⊢
    rw [hdraft] at h ⊢
    exact h

theorem Tracks.readLine (h : s.Tracks) (row : Nat) (line : List Char) :
    (s.readLine row line).Tracks := by
  rcases s.readLine_cases row line with ⟨d, hd, hs⟩ | ⟨hdraft, ⟨-, hs⟩ | ⟨-, hs⟩⟩
  · unfold Tracks at h
    rw [hd] at h
    rw [hs]
    exact TracksIn.readCode h _ _
  · rw [hs]
    exact h.comment hdraft row line
  · rw [hs]
    exact (h.indent hdraft _ _ rfl).readCode _ _

theorem Tracks.readLines (h : s.Tracks) (row : Nat) (lines : List (List Char)) :
    (s.readLines row lines).Tracks := by
  induction lines generalizing s row with
  | nil => exact h
  | cons line lines ih => exact ih (h.readLine row line) (row + 1)

theorem tracks_initial : initial.Tracks := rfl

/-- A logical line that is open when the text ends ends with it. -/
theorem Tracks.abandonOpen (h : s.Tracks) :
    s.abandonOpen.draft = none ∧ s.abandonOpen.Tracks := by
  unfold State.abandonOpen
  unfold Tracks at h
  cases hdraft : s.draft with
  | none =>
    rw [hdraft] at h
    exact ⟨hdraft, by unfold Tracks; rwa [hdraft]⟩
  | some d =>
    rw [hdraft] at h
    have hopen : (s.reportUnclosed d.string d.brackets).TracksIn d := by
      refine h.of_same ?_ (lines_reportUnclosed _ _ _) ?_ ?_ rfl
      · exact header_reportUnclosed _ _ _
      · exact levels_reportUnclosed _ _ _
      · exact (s.brought_reportUnclosed _ _).all_eq Event.isSound_of_isOfCode
    exact ⟨rfl, hopen.close⟩

/-- The text ends. A header that is left is a fault, and so `Nest` must not end with one. -/
theorem Tracks.finish (h : s.Tracks) :
    s.finish.all Event.isSound = true ↔
      Nest.Accepts .initial (s.finish.filterMap Event.line?) := by
  have hlines : s.finish.filterMap Event.line? = s.abandonOpen.lines.reverse := by
    rw [finish_eq, List.filterMap_reverse]
    exact congrArg List.reverse (lines_reportMissing _)
  have hsound : s.finish.all Event.isSound =
      (s.abandonOpen.header.isNone && s.abandonOpen.isSound) := by
    rw [finish_eq, List.all_reverse]
    exact isSound_reportMissing _
  rw [hlines, hsound]
  obtain ⟨hdraft, htracks⟩ := h.abandonOpen
  unfold Tracks at htracks
  rw [hdraft] at htracks
  show _ ↔ ∃ columns, s.abandonOpen.nest? = some ⟨columns, false⟩
  rw [htracks]
  cases s.abandonOpen.isSound <;> cases hheader : s.abandonOpen.header <;> simp [nest, hheader]

end State

/-- The logical lines of a text. -/
def logicalLines (text : List Char) : List LogicalLine :=
  (scan (Text.lines text)).filterMap Event.line?

/-- A text has no fault of blocks where its logical lines are one block at the very left. -/
theorem all_isSound_scan_iff (text : List Char) :
    (scan (Text.lines text)).all Event.isSound = true ↔
      logicalLines text = [] ∨ Block 0 (logicalLines text) := by
  rw [scan, (State.tracks_initial.readLines 0 (Text.lines text)).finish, Nest.initial_accepts_iff]
  rfl

/-- The words in which the faults of blocks are reported. -/
theorem message_mem_iff (m : String) :
    m ∈ ["unexpected indent", "expected an indented block",
        "unindent does not match any outer indentation level"] ↔
      ∃ f ∈ Fault.ofBlocks, m = f.message := by
  show m ∈ Fault.ofBlocks.map Fault.message ↔ _
  simp only [List.mem_map, eq_comm]

/-- What is not collected is not reported; otherwise a fault of blocks is reported where it is
found. -/
theorem filter_isReportOf_diagnostics {options : Options} (hcollect : options.collect = true)
    (events : List Event) {f : Fault} (hf : f ∈ Fault.ofBlocks) :
    (diagnostics options events).filter (Diagnostic.isReportOf f) = [] ↔
      ∀ range, .fault range f ∉ events := by
  have hmem : f ∈ Fault.distinguished ∧ f ≠ .mixedIndent ∧ Fault.asyncUnsupported ≠ f := by
    revert f
    decide
  obtain ⟨hdistinguished, hmixed, hasync⟩ := hmem
  rw [filter_diagnostics, if_pos hcollect, ← List.length_eq_zero_iff, List.length_mergeSort,
    List.length_eq_zero_iff, List.flatMap_eq_nil_iff]
  simp only [filter_isReportOf hdistinguished hmixed hasync]
  constructor
  · intro h range hrange
    simpa using h _ hrange
  · intro h e he
    cases e with
    | fault range g =>
      refine if_neg ?_
      rintro rfl
      exact h range he
    | _ => rfl

end Layout

/-- Where reports are collected, none says that a line stands too far in, that a header has no
block or that a line meets no outer indentation, if and only if the logical lines of the text are
none at all or one block at the very left. (The report of a comment says what its author likes, and
is signed otherwise.) -/
theorem blocks_reported_iff (content : ByteArray) (options : Options)
    (hcollect : options.collect = true) :
    (∀ d ∈ (parse content options).diagnostics, d.source = .python →
        d.message ∉ ["unexpected indent", "expected an indented block",
          "unindent does not match any outer indentation level"]) ↔
      Layout.logicalLines (decodeText content) = [] ∨
        Layout.Block 0 (Layout.logicalLines (decodeText content)) := by
  rw [← Layout.all_isSound_scan_iff, List.all_eq_true]
  show (∀ d ∈ Layout.diagnostics options (Layout.scan (Text.lines (decodeText content))), _) ↔ _
  generalize Layout.scan (Text.lines (decodeText content)) = events
  simp only [Layout.message_mem_iff]
  constructor
  · intro h e he
    cases e with
    | fault range f =>
      refine decide_eq_true fun hf => ?_
      have hnone : (Layout.diagnostics options events).filter (Diagnostic.isReportOf f) = [] := by
        rw [List.filter_eq_nil_iff]
        intro d hd hreport
        obtain ⟨hsource, hmessage⟩ := Bool.and_eq_true_iff.1 hreport
        exact h d hd (eq_of_beq hsource) ⟨f, hf, eq_of_beq hmessage⟩
      exact (Layout.filter_isReportOf_diagnostics hcollect events hf).1 hnone range he
    | _ => rfl
  · rintro h d hd hsource ⟨f, hf, hmessage⟩
    have hnone : (Layout.diagnostics options events).filter (Diagnostic.isReportOf f) = [] := by
      rw [Layout.filter_isReportOf_diagnostics hcollect events hf]
      intro range hrange
      exact absurd hf (of_decide_eq_true (h _ hrange))
    have hreport : d.isReportOf f = true := by
      rw [Diagnostic.isReportOf, hsource, hmessage]
      simp
    exact List.filter_eq_nil_iff.1 hnone d hd hreport

/-- Three blocks, two of which the last line ends; a tab reaches to the next multiple of eight. -/
def nestedText : ByteArray := "class A:\n\tif x:\n\t    y = 1\n\t    z = 2\nw = 3\n".toUTF8

/-- The last line ends the innermost block but stands further in than the next one. -/
def unmetText : ByteArray := "class A:\n    if x:\n        y = 1\n      z = 2\n".toUTF8

theorem nestedText_is_block :
    Options.standard.collect = true ∧
      (Layout.logicalLines (decodeText nestedText)).map (fun l => (l.indent, l.isHeader)) =
        [(0, true), (8, true), (12, false), (12, false), (0, false)] ∧
      Layout.Block 0 (Layout.logicalLines (decodeText nestedText)) ∧
      (Layout.logicalLines (decodeText unmetText)).map (fun l => (l.indent, l.isHeader)) =
        [(0, true), (4, true), (8, false), (6, false)] ∧
      ¬Layout.Block 0 (Layout.logicalLines (decodeText unmetText)) := by
  have hnested := blocks_reported_iff nestedText .standard rfl
  have hunmet := blocks_reported_iff unmetText .standard rfl
  refine ⟨rfl, by decide +kernel, ?_, by decide +kernel, ?_⟩
  · refine (hnested.1 ?_).resolve_left (by decide +kernel)
    have hnone : (parse nestedText .standard).diagnostics = [] :=
      List.length_eq_zero_iff.1 ((List.length_mergeSort _).trans (by decide +kernel))
    simp [hnone]
  · intro hblock
    have hreport : ⟨⟨⟨3, 0⟩, ⟨3, 6⟩⟩, .error, .python, Fault.unindentMismatch.message⟩ ∈
        (parse unmetText .standard).diagnostics := List.mem_mergeSort.2 (by decide +kernel)
    exact hunmet.2 (.inr hblock) _ hreport rfl (by decide)

end Reparse
