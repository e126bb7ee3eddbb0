import Reparse.Proofs.Layout.Composition
import Reparse.Proofs.Layout.Tokenized

/-!
Lines without code put in between others. Where no logical line is open, the reader takes nothing
from such a line but its comment, so what it reads behind it is what it would have read anyway, on
lines further down. The reports of the comments go between the reports on the lines before and
those on the lines behind, even though a header before them may be reported only by the code behind
them.
-/

namespace Reparse

namespace Layout

/-- The line holds nothing but its indentation and perhaps a comment behind it. -/
def IsBlankLine (line : List Char) : Prop :=
  ∀ c ∈ (line.dropWhile indents).head?, c = '#'

instance (line : List Char) : Decidable (IsBlankLine line) :=
  decidable_of_iff ((line.dropWhile indents).head?.all (· == '#') = true) (by
    cases h : (line.dropWhile indents).head? <;> simp [IsBlankLine, h])

/-- The reports on the comments of lines without code, the first of which has the given number. -/
def commentReports (options : Options) (row : Nat) : List (List Char) → List Diagnostic
  | [] => []
  | line :: lines =>
    let place : Position := ⟨row, (line.takeWhile indents).length⟩
    (match line.dropWhile indents with
      | [] => []
      | comment => (Event.comment place comment).diagnostics options (finder options)) ++
    commentReports options (row + 1) lines

/-- The number that a line has after `count` lines have been put in before the given one. -/
def movedBy (row count k : Nat) : Nat :=
  if k < row then k else k + count

/-! ## Lines without code -/

namespace Indent

theorem isSome_extend? (w : Indent) (c : Char) : (w.extend? c).isSome = indents c := by
  unfold extend? indents
  by_cases hspace : c = ' '
  · simp [hspace]
  by_cases htab : c = '\t'
  · simp [htab]
  by_cases hfeed : c = '\x0c'
  · simp [hfeed]
  · simp [hspace, htab, hfeed]

theorem measureFrom_snd (w : Indent) (n : Nat) (line : List Char) :
    (measureFrom w n line).2 = (n + (line.takeWhile indents).length, line.dropWhile indents) := by
  induction line generalizing w n with
  | nil => rfl
  | cons c cs ih =>
    have hindents := isSome_extend? w c
    rw [measureFrom]
    cases hext : w.extend? c with
    | none =>
      have hc : indents c = false := by rw [← hindents, hext]; rfl
      rw [List.takeWhile_cons_of_neg (by simp [hc]), List.dropWhile_cons_of_neg (by simp [hc])]
      rfl
    | some w' =>
      have hc : indents c = true := by rw [← hindents, hext]; rfl
      rw [List.takeWhile_cons_of_pos hc, List.dropWhile_cons_of_pos hc, List.length_cons]
      exact (ih w' (n + 1)).trans (by rw [Nat.add_right_comm, Nat.add_assoc])

/-- The indentation of a line is all of its characters before the first that does not indent. -/
theorem measure_snd (line : List Char) :
    (measure line).2 = ((line.takeWhile indents).length, line.dropWhile indents) :=
  (measureFrom_snd ground 0 line).trans (by rw [Nat.zero_add])

end Indent

theorem IsBlankLine.isCodeLine {line : List Char} (h : IsBlankLine line) :
    isCodeLine line = false := by
  unfold IsBlankLine at h
  rw [Layout.isCodeLine, Indent.measure_snd]
  cases hrest : line.dropWhile indents with
  | nil => rfl
  | cons c rest =>
    rw [hrest] at h
    simpa using h c rfl

theorem filterMap_line?_comments (row : Nat) (lines : List (List Char)) :
    (comments row lines).filterMap Event.line? = [] := by
  induction lines generalizing row with
  | nil => rfl
  | cons line lines ih =>
    rw [comments, List.filterMap_append, ih, List.append_nil, comment?]
    split <;> rfl

/-- The reports of lines without code are those on their comments. -/
theorem flatMap_diagnostics_comments (options : Options) (row : Nat) (lines : List (List Char)) :
    (comments row lines).flatMap (Event.diagnostics options (finder options)) =
      commentReports options row lines := by
  induction lines generalizing row with
  | nil => rfl
  | cons line lines ih =>
    rw [comments, List.flatMap_append, ih, commentReports, comment?, Indent.measure_snd]
    cases line.dropWhile indents with
    | nil => rfl
    | cons c rest => exact congrArg (· ++ _) (List.append_nil _)

theorem mem_commentReports {options : Options} {row : Nat} {lines : List (List Char)}
    {d : Diagnostic} (h : d ∈ commentReports options row lines) :
    d.source = .taskComment ∧ row ≤ d.range.start.line ∧
      d.range.start.line < row + lines.length := by
  induction lines generalizing row with
  | nil => cases h
  | cons line lines ih =>
    rw [commentReports] at h
    rcases List.mem_append.1 h with h | h
    · cases hrest : line.dropWhile indents with
      | nil =>
        rw [hrest] at h
        cases h
      | cons c rest =>
        rw [hrest] at h
        obtain ⟨hit, -, rfl⟩ := List.mem_map.1 h
        exact ⟨rfl, Nat.le_refl _, Nat.lt_add_of_pos_right (Nat.succ_pos _)⟩
    · obtain ⟨hsource, hle, hlt⟩ := ih h
      rw [List.length_cons]
      exact ⟨hsource, by omega, by omega⟩

/-- The reports on comments of one line after the other are in order. -/
theorem pairwise_commentReports (options : Options) (row : Nat) (lines : List (List Char)) :
    (commentReports options row lines).Pairwise fun d d' => d.byStart d' := by
  induction lines generalizing row with
  | nil => exact .nil
  | cons line lines ih =>
    rw [commentReports, List.pairwise_append]
    refine ⟨?_, ih (row + 1), ?_⟩
    · cases line.dropWhile indents with
      | nil => exact .nil
      | cons c rest =>
        refine List.pairwise_map.2 (List.pairwise_of_forall fun _ _ => ?_)
        exact Position.precedes_refl _
    · intro d hd d' hd'
      have hline : d.range.start.line = row := by
        cases hrest : line.dropWhile indents with
        | nil =>
          rw [hrest] at hd
          cases hd
        | cons c rest =>
          rw [hrest] at hd
          obtain ⟨hit, -, rfl⟩ := List.mem_map.1 hd
          rfl
      obtain ⟨-, hle, -⟩ := mem_commentReports hd'
      simp only [Diagnostic.byStart, Position.precedes, hline, Bool.or_eq_true, decide_eq_true_eq]
      exact .inl hle

/-! ## The events with and without the lines -/

section Insert

variable {a c : List (List Char)}

/-- What is behind the lines is read in the same way as without them. -/
theorem scan_insert_blank (hdraft : (State.initial.readLines 0 a).draft = none)
    (hblank : ∀ line ∈ c, isCodeLine line = false) (b : List (List Char)) :
    ∃ early late, scan (a ++ b) = early ++ late ∧
      scan (a ++ (c ++ b)) = early.map (Event.renumber (movedBy a.length c.length)) ++
        (comments a.length c ++ late.map (Event.renumber (movedBy a.length c.length))) := by
  have hbefore : ∀ k < a.length, movedBy a.length c.length (0 + k) = 0 + k := by
    intro k hk
    simp [movedBy, hk]
  have hbehind : ∀ k < b.length, movedBy a.length c.length (a.length + k) =
      a.length + c.length + k := by
    intro k _
    simp only [movedBy]
    split <;> omega
  generalize hf : movedBy a.length c.length = f at hbefore hbehind
  -- The lines before keep their numbers, and so does all that the reader carries over from them.
  have hfixed : (State.initial.readLines 0 a).renumber f [] = State.initial.readLines 0 a :=
    (State.readLines_renumber f [] .initial 0 0 a hbefore).symm
  rw [scan_append, scan, State.readLines_append, State.readLines_append, Nat.zero_add]
  generalize State.initial.readLines 0 a = s at hdraft hfixed ⊢
  have hevents : s.events.map (Event.renumber f) = s.events := by
    simpa [State.renumber] using congrArg State.events hfixed
  rw [State.readLines_of_not_isCodeLine hdraft hblank]
  -- Both runs go on from the same reader, one without a past of its own.
  let fresh : State := { s with events := [] }
  have hwithout : s = fresh.renumber id s.events := by
    obtain ⟨levels, header, draft, events⟩ := s
    cases hdraft
    cases header <;> rfl
  have hwith : s.meet (comments a.length c) =
      fresh.renumber f ((comments a.length c).reverse ++ s.events) := by
    have hheader : s.header.map (Range.renumber f) = s.header := congrArg State.header hfixed
    simp only [State.meet, State.renumber, fresh, hheader, hdraft, Option.map_none, List.map_nil,
      List.nil_append]
  refine ⟨s.events.reverse, ((fresh.readLines a.length b).finish).map (Event.renumber id), ?_, ?_⟩
  · conv_lhs => rw [hwithout]
    rw [State.readLines_renumber id _ fresh a.length a.length b fun _ _ => rfl,
      State.finish_renumber]
  · have hid : ∀ events : List Event, events.map (Event.renumber id) = events := by
      intro events
      refine (List.map_congr_left ?_).trans (List.map_id _)
      intro e _
      cases e <;> rfl
    rw [hwith, State.readLines_renumber f _ fresh a.length (a.length + c.length) b hbehind,
      State.finish_renumber, hid, List.map_reverse, hevents, List.reverse_append,
      List.reverse_reverse, List.append_assoc]

end Insert

/-! ## Reports with and without the lines -/

theorem precedes_movedBy (row count : Nat) (p q : Position) :
    (p.renumber (movedBy row count)).precedes (q.renumber (movedBy row count)) = p.precedes q := by
  rw [Bool.eq_iff_iff]
  by_cases hp : p.line < row <;> by_cases hq : q.line < row <;>
    simp [Position.precedes, Position.renumber, movedBy, hp, hq] <;> omega

/-- The report begins on the given line or further down. -/
def startsFrom (row : Nat) (d : Diagnostic) : Bool :=
  row ≤ d.range.start.line

theorem startsFrom_of_byStart (row : Nat) (d d' : Diagnostic) (h : d.byStart d')
    (hd : startsFrom row d) : startsFrom row d' := by
  simp only [Diagnostic.byStart, Position.precedes, startsFrom, Bool.or_eq_true, Bool.and_eq_true,
    decide_eq_true_eq, beq_iff_eq] at *
  omega

/-- Reports that begin on the lines put in go between those before and those behind. -/
theorem mergeSort_insert {row count : Nat} {early hits late : List Diagnostic}
    (hits_on : ∀ d ∈ hits, row ≤ d.range.start.line ∧ d.range.start.line < row + count) :
    (early.map (Diagnostic.renumber (movedBy row count)) ++
        (hits ++ late.map (Diagnostic.renumber (movedBy row count)))).mergeSort Diagnostic.byStart =
      (((early ++ late).mergeSort Diagnostic.byStart).filter fun d => !startsFrom row d).map
          (Diagnostic.renumber (movedBy row count)) ++
        (hits.mergeSort Diagnostic.byStart ++
          (((early ++ late).mergeSort Diagnostic.byStart).filter (startsFrom row)).map
            (Diagnostic.renumber (movedBy row count))) := by
  have hmoved : ∀ d : Diagnostic,
      startsFrom row (d.renumber (movedBy row count)) = startsFrom row d ∧
        startsFrom (row + count) (d.renumber (movedBy row count)) = startsFrom row d := by
    intro d
    by_cases hd : d.range.start.line < row <;>
      simp [startsFrom, Diagnostic.renumber, Range.renumber, Position.renumber, movedBy, hd] <;>
      omega
  have hsort : ((early ++ late).mergeSort Diagnostic.byStart).map
      (Diagnostic.renumber (movedBy row count)) =
        ((early ++ late).map (Diagnostic.renumber (movedBy row count))).mergeSort
          Diagnostic.byStart :=
    List.map_mergeSort fun d _ d' _ => (precedes_movedBy row count _ _).symm
  have hfilter : ∀ (p : Diagnostic → Bool) (ds : List Diagnostic),
      (∀ d, p (d.renumber (movedBy row count)) = p d) →
        (ds.map (Diagnostic.renumber (movedBy row count))).filter p =
          (ds.filter p).map (Diagnostic.renumber (movedBy row count)) := by
    intro p ds hp
    rw [List.filter_map]
    exact congrArg (fun q => (ds.filter q).map _) (funext hp)
  rw [mergeSort_between Diagnostic.byStart_trans Diagnostic.byStart_total
    (startsFrom_of_byStart row) (startsFrom_of_byStart (row + count)), ← List.map_append, ← hsort,
    hfilter _ _ fun d => (hmoved d).1, hfilter _ _ fun d => by rw [(hmoved d).1]]
  · intro d hd
    obtain ⟨hle, hlt⟩ := hits_on d hd
    simp only [startsFrom, decide_eq_true_eq, decide_eq_false_iff_not]
    exact ⟨hle, by omega⟩
  · intro d hd
    rw [← List.map_append] at hd
    obtain ⟨d, -, rfl⟩ := List.mem_map.1 hd
    rw [(hmoved d).1, (hmoved d).2]

section Insert

variable {a c : List (List Char)}

/-- The statements behind the lines are moved down. -/
theorem statements_insert_blank (options : Options)
    (hdraft : (State.initial.readLines 0 a).draft = none)
    (hblank : ∀ line ∈ c, isCodeLine line = false) (b : List (List Char)) :
    statements options (scan (a ++ (c ++ b))) =
      (statements options (scan (a ++ b))).map (Statement.renumber (movedBy a.length c.length)) := by
  obtain ⟨early, late, hwithout, hwith⟩ := scan_insert_blank hdraft hblank b
  have hcomments : statements options (comments a.length c) = [] := by
    rw [statements_eq, filterMap_line?_comments]
    rfl
  have hmoved : ∀ events : List Event,
      statements options (events.map (Event.renumber (movedBy a.length c.length))) =
        (statements options events).map (Statement.renumber (movedBy a.length c.length)) := by
    intro events
    rw [statements, statements, List.map_flatMap, List.flatMap_map]
    simp only [Event.statements_renumber]
  have happend : ∀ events events' : List Event, statements options (events ++ events') =
      statements options events ++ statements options events' :=
    fun _ _ => List.flatMap_append
  rw [hwithout, hwith, happend, happend, hmoved, hcomments, hmoved, List.nil_append, happend,
    List.map_append]

/-- The reports behind the lines are moved down, and those of the lines go before them. -/
theorem diagnostics_insert_blank (options : Options)
    (hdraft : (State.initial.readLines 0 a).draft = none)
    (hblank : ∀ line ∈ c, isCodeLine line = false) (b : List (List Char)) :
    ∃ before behind, diagnostics options (scan (a ++ b)) = before ++ behind ∧
      (∀ d ∈ before, d.range.start.line < a.length) ∧
      (∀ d ∈ behind, a.length ≤ d.range.start.line) ∧
      diagnostics options (scan (a ++ (c ++ b))) =
        before.map (Diagnostic.renumber (movedBy a.length c.length)) ++
          ((if options.collect then commentReports options a.length c else []) ++
            behind.map (Diagnostic.renumber (movedBy a.length c.length))) := by
  obtain ⟨early, late, hwithout, hwith⟩ := scan_insert_blank hdraft hblank b
  have hmoved : ∀ events : List Event,
      (events.map (Event.renumber (movedBy a.length c.length))).flatMap
          (Event.diagnostics options (finder options)) =
        (events.flatMap (Event.diagnostics options (finder options))).map
          (Diagnostic.renumber (movedBy a.length c.length)) := by
    intro events
    rw [List.map_flatMap, List.flatMap_map]
    simp only [Event.diagnostics_renumber]
  rw [diagnostics_eq, diagnostics_eq]
  split
  · have hcut := filter_not_append_filter (startsFrom_of_byStart a.length)
      (List.pairwise_mergeSort Diagnostic.byStart_trans Diagnostic.byStart_total
        ((scan (a ++ b)).flatMap (Event.diagnostics options (finder options))))
    refine ⟨_, _, hcut.symm, ?_, ?_, ?_⟩
    · intro d hd
      simpa [startsFrom] using (List.mem_filter.1 hd).2
    · intro d hd
      simpa [startsFrom] using (List.mem_filter.1 hd).2
    · rw [hwith, hwithout, List.flatMap_append, List.flatMap_append, List.flatMap_append, hmoved,
        hmoved, flatMap_diagnostics_comments,
        mergeSort_insert fun d hd => (mem_commentReports hd).2,
        List.mergeSort_of_pairwise (pairwise_commentReports _ _ _)]
  · exact ⟨[], [], rfl, by simp, by simp, rfl⟩

end Insert

end Layout

/-- Lines with nothing but an indentation and perhaps a comment, put in where no logical line is
open, move the statements and the reports behind them down and leave them as they are otherwise,
wherever they and the code behind them are indented to. Between the reports on the lines before them
and those on the lines behind stand the reports on their comments, which are not Python's. -/
theorem parseText_insert_blank_lines (a c b : List Char) (options : Options)
    (ha : a = [] ∨ a.getLast? = some '\n') (hc : c = [] ∨ c.getLast? = some '\n')
    (hdraft : (Layout.State.initial.readLines 0 (Text.lines a)).draft = none)
    (hblank : ∀ line ∈ Text.lines c, Layout.IsBlankLine line) :
    let move := Layout.movedBy (Text.lines a).length (Text.lines c).length
    (parseText (a ++ (c ++ b)) options).outline.statements =
        (parseText (a ++ b) options).outline.statements.map (Statement.renumber move) ∧
      (parseText (a ++ (c ++ b)) options).diagnostics.filter (·.source == .python) =
        ((parseText (a ++ b) options).diagnostics.filter (·.source == .python)).map
          (Diagnostic.renumber move) ∧
      ∃ before behind, (parseText (a ++ b) options).diagnostics = before ++ behind ∧
        (∀ d ∈ before, d.range.start.line < (Text.lines a).length) ∧
        (∀ d ∈ behind, (Text.lines a).length ≤ d.range.start.line) ∧
        (parseText (a ++ (c ++ b)) options).diagnostics =
          before.map (Diagnostic.renumber move) ++
            ((if options.collect then
                Layout.commentReports options (Text.lines a).length (Text.lines c)
              else []) ++
              behind.map (Diagnostic.renumber move)) := by
  intro move
  have hcode : ∀ line ∈ Text.lines c, Layout.isCodeLine line = false :=
    fun line hline => (hblank line hline).isCodeLine
  simp only [parseText, Outline.single, Text.lines_append_of_newline _ ha,
    Text.lines_append_of_newline _ hc]
  obtain ⟨before, behind, hwithout, hbefore, hbehind, hwith⟩ :=
    Layout.diagnostics_insert_blank options hdraft hcode (Text.lines b)
  refine ⟨Layout.statements_insert_blank options hdraft hcode (Text.lines b), ?_,
    before, behind, hwithout, hbefore, hbehind, hwith⟩
  have hmoved : ∀ ds : List Diagnostic, (ds.map (Diagnostic.renumber move)).filter
      (·.source == .python) = (ds.filter (·.source == .python)).map (Diagnostic.renumber move) := by
    intro ds
    rw [List.filter_map]
    rfl
  have hnone : (if options.collect then
      Layout.commentReports options (Text.lines a).length (Text.lines c) else []).filter
        (·.source == .python) = [] := by
    rw [List.filter_eq_nil_iff]
    intro d hd
    split at hd
    · simp [(Layout.mem_commentReports hd).1]
    · cases hd
  rw [hwith, hwithout, List.filter_append, List.filter_append, hnone, hmoved, hmoved,
    List.nil_append, List.filter_append, List.map_append]

/-- A comment with a keyword, an empty line and a blank one. -/
def blankLines : List Char := "  # TODO: c\n\n\t\n".toList

/-- The options that hold where nothing else is said, with one keyword for comments. -/
def todoOptions : Options :=
  { Options.standard with taskComments := some (.ofList [("TODO", .hint)]) }

/-- The lines stand between a header and its block, and are indented to neither of them. -/
theorem parseText_insert_blankLines_in_block :
    ("if x:\n".toList = [] ∨ "if x:\n".toList.getLast? = some '\n') ∧
      (blankLines = [] ∨ blankLines.getLast? = some '\n') ∧
      (Layout.State.initial.readLines 0 (Text.lines "if x:\n".toList)).draft = none ∧
      (∀ line ∈ Text.lines blankLines, Layout.IsBlankLine line) ∧
      (Layout.commentReports todoOptions 1 (Text.lines blankLines)).map Diagnostic.range =
        [⟨⟨1, 2⟩, ⟨1, 11⟩⟩] ∧
      (parseText ("if x:\n".toList ++ (blankLines ++ "    y = (1]\n".toList))
          todoOptions).outline.statements.map Statement.range =
        [⟨⟨0, 0⟩, ⟨0, 5⟩⟩, ⟨⟨4, 4⟩, ⟨4, 11⟩⟩] ∧
      ∃ before behind,
        (parseText ("if x:\n".toList ++ "    y = (1]\n".toList) todoOptions).diagnostics =
          before ++ behind ∧
        (parseText ("if x:\n".toList ++ (blankLines ++ "    y = (1]\n".toList))
            todoOptions).diagnostics =
          before.map (Diagnostic.renumber (Layout.movedBy 1 3)) ++
            (Layout.commentReports todoOptions 1 (Text.lines blankLines) ++
              behind.map (Diagnostic.renumber (Layout.movedBy 1 3))) := by
  have ha : "if x:\n".toList.getLast? = some '\n' := by decide +kernel
  have hc : blankLines.getLast? = some '\n' := by decide +kernel
  have hdraft : (Layout.State.initial.readLines 0 (Text.lines "if x:\n".toList)).draft = none := by
    decide +kernel
  have hblank : ∀ line ∈ Text.lines blankLines, Layout.IsBlankLine line := by decide +kernel
  obtain ⟨-, -, before, behind, hwithout, -, -, hwith⟩ := parseText_insert_blank_lines
    "if x:\n".toList blankLines "    y = (1]\n".toList todoOptions (.inr ha) (.inr hc) hdraft hblank
  exact ⟨.inr ha, .inr hc, hdraft, hblank, by decide +kernel, by decide +kernel,
    before, behind, hwithout, hwith⟩

end Reparse
