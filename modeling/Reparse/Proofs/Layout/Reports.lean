import Reparse.Parse
import Reparse.Proofs.StableSort

/-!
What the options make of a text. The events of a text do not depend on them; the options decide
which names the statements list, how they are sorted, and which of the events are reported. Reports
are sorted by their places, so leaving some of them out commutes with the sorting, and two parses
whose options differ only in what they leave out agree on the rest.
-/

namespace Reparse

namespace Fault

/-! ## The words of the faults that are told apart by them -/

theorem take_message_unmatched (closer : Char) :
    (unmatched closer).message.toList.take 3 = ['u', 'n', 'm'] := by
  have h : (unmatched closer).message = "unmatched '" ++ String.singleton closer ++ "'" := rfl
  rw [h, String.toList_append, String.toList_append]
  rfl

theorem take_message_mismatched (closer opener : Char) :
    (mismatched closer opener).message.toList.take 3 = ['c', 'l', 'o'] := by
  have h : (mismatched closer opener).message = "closing parenthesis '" ++ String.singleton closer
      ++ "' does not match opening parenthesis '" ++ String.singleton opener ++ "'" := rfl
  rw [h, String.toList_append, String.toList_append, String.toList_append, String.toList_append]
  rfl

theorem take_message_neverClosed (opener : Char) :
    (neverClosed opener).message.toList.take 1 = ['\''] := by
  have h : (neverClosed opener).message = "'" ++ String.singleton opener ++ "' was never closed" :=
    rfl
  rw [h, String.toList_append, String.toList_append]
  rfl

/-- The faults whose reports are told from all others below. -/
def distinguished : List Fault :=
  [mixedIndent, unterminatedString, unterminatedTriple, unexpectedIndent, missingBlock,
    unindentMismatch]

/-- The words of these faults are theirs alone. -/
theorem message_eq_iff {f g : Fault} (hf : f ∈ distinguished) :
    g.message = f.message ↔ g = f := by
  refine ⟨?_, congrArg message⟩
  intro h
  simp only [distinguished, List.mem_cons, List.not_mem_nil, or_false] at hf
  have hthree := congrArg (fun m : String => m.toList.take 3) h
  have hone := congrArg (fun m : String => m.toList.take 1) h
  cases g with
  | unmatched closer =>
    rw [take_message_unmatched] at hthree
    rcases hf with rfl | rfl | rfl | rfl | rfl | rfl <;> exact absurd hthree (by decide)
  | mismatched closer opener =>
    rw [take_message_mismatched] at hthree
    rcases hf with rfl | rfl | rfl | rfl | rfl | rfl <;> exact absurd hthree (by decide)
  | neverClosed opener =>
    rw [take_message_neverClosed] at hone
    rcases hf with rfl | rfl | rfl | rfl | rfl | rfl <;> exact absurd hone (by decide)
  | _ =>
    revert h
    rcases hf with rfl | rfl | rfl | rfl | rfl | rfl <;> decide

end Fault

/-! ## Reports in the order of their places -/

namespace Diagnostic

/-- The order of reports: by the places where they begin. -/
def byStart (a b : Diagnostic) : Bool :=
  a.range.start.precedes b.range.start

theorem byStart_trans (a b c : Diagnostic) (h : a.byStart b) (h' : b.byStart c) : a.byStart c :=
  Position.precedes_trans h h'

theorem byStart_total (a b : Diagnostic) : a.byStart b || b.byStart a :=
  Position.precedes_total _ _

/-- The report says that a fault has been found. -/
def isReportOf (f : Fault) (d : Diagnostic) : Bool :=
  d.source == .python && d.message == f.message

end Diagnostic

namespace Layout

theorem diagnostics_eq (options : Options) (events : List Event) :
    diagnostics options events =
      if options.collect then
        (events.flatMap (Event.diagnostics options (finder options))).mergeSort Diagnostic.byStart
      else [] :=
  rfl

/-- Leaving out reports of all events is leaving them out event by event. -/
theorem filter_diagnostics (options : Options) (events : List Event) (p : Diagnostic → Bool) :
    (diagnostics options events).filter p =
      if options.collect then
        (events.flatMap fun e => (e.diagnostics options (finder options)).filter p).mergeSort
          Diagnostic.byStart
      else [] := by
  rw [diagnostics_eq]
  split
  · rw [filter_mergeSort Diagnostic.byStart_trans Diagnostic.byStart_total, List.filter_flatMap]
  · rfl

/-- The reports of the layout itself: those that are neither of comments nor of mixed tabs and
spaces. -/
def isLayoutReport (d : Diagnostic) : Bool :=
  d.source == .python && !d.isReportOf .mixedIndent

namespace Event

/-- A report of a comment is signed as such. -/
theorem source_of_mem_comment {options : Options} {finder : TaskComment.Finder} {start : Position}
    {text : List Char} {d : Diagnostic} (h : d ∈ (comment start text).diagnostics options finder) :
    d.source = .taskComment := by
  obtain ⟨hit, -, rfl⟩ := List.mem_map.1 h
  rfl

theorem filter_comment {p : Diagnostic → Bool} (hp : ∀ d, d.source = .taskComment → p d = false)
    (options : Options) (finder : TaskComment.Finder) (start : Position) (text : List Char) :
    ((comment start text).diagnostics options finder).filter p = [] := by
  rw [List.filter_eq_nil_iff]
  intro d hd
  simp [hp d (source_of_mem_comment hd)]

/-- A report of a fault has its place and its words, whatever its severity. -/
theorem eq_of_mem_report {options : Options} {range : Range} {f : Fault} {d : Diagnostic}
    (h : d ∈ report options range f) : ∃ severity, d = ⟨range, severity, .python, f.message⟩ := by
  obtain ⟨severity, -, rfl⟩ := List.mem_map.1 h
  exact ⟨severity, rfl⟩

/-- What is reported of the layout depends on nothing but the language version. -/
theorem filter_isLayoutReport (options : Options) (finder : TaskComment.Finder) (e : Event) :
    (e.diagnostics options finder).filter isLayoutReport =
      match e with
      | comment .. => []
      | fault range f => if f = .mixedIndent then [] else [⟨range, .error, .python, f.message⟩]
      | line l => (l.faults options.version).flatMap fun f =>
          if f = .mixedIndent then [] else [⟨l.range, .error, .python, f.message⟩] := by
  have hreport : ∀ range f, (report options range f).filter isLayoutReport =
      if f = .mixedIndent then [] else [⟨range, .error, .python, f.message⟩] := by
    intro range f
    by_cases hf : f = .mixedIndent
    · subst hf
      rw [if_pos rfl, List.filter_eq_nil_iff]
      intro d hd
      obtain ⟨severity, rfl⟩ := eq_of_mem_report hd
      simp [isLayoutReport, Diagnostic.isReportOf]
    · have hmessage : f.message ≠ Fault.mixedIndent.message :=
        fun h => hf ((Fault.message_eq_iff (.head _)).1 h)
      simp [report, hf, isLayoutReport, Diagnostic.isReportOf, hmessage]
  cases e with
  | comment start text =>
    exact filter_comment (fun d hd => by simp [isLayoutReport, hd]) options finder start text
  | fault range f => exact hreport range f
  | line l =>
    rw [diagnostics, List.filter_flatMap]
    simp only [hreport]

/-- A statement has its place and its indentation from its logical line. -/
theorem map_place_statements (version version' : LanguageVersion) (bind bind' : Bool) (e : Event) :
    (e.statements version bind).map (fun s => (s.range, s.indent)) =
      (e.statements version' bind').map (fun s => (s.range, s.indent)) := by
  cases e with
  | line l =>
    simp [statements, LogicalLine.statements, LogicalLine.sorted, Function.comp_def]
  | _ => rfl

theorem map_kind_statements (version : LanguageVersion) (bind bind' : Bool) (e : Event) :
    (e.statements version bind).map Statement.kind =
      (e.statements version bind').map Statement.kind := by
  cases e with
  | line l => simp [statements, LogicalLine.statements, Function.comp_def]
  | _ => rfl

theorem bindings_of_mem_statements {version : LanguageVersion} {e : Event} {s : Statement}
    (h : s ∈ e.statements version false) : s.bindings = [] := by
  cases e with
  | line l =>
    obtain ⟨sorted, -, rfl⟩ := List.mem_map.1 h
    rfl
  | _ => cases h

end Event

end Layout

/-- Two parses of one content under any options give statements at the same places with the same
indentations; with one language version, statements of the same kinds; and if also names are listed
in both or in neither, the same statements. Names are listed only where that is asked for. With one
language version, and reports collected in both, the reports are the same but for those of comments
and of mixed tabs and spaces; where they are not collected there are none. -/
theorem options_keep_shape (content : ByteArray) (o o' : Options) :
    ((parse content o).outline.statements.map fun s => (s.range, s.indent)) =
        ((parse content o').outline.statements.map fun s => (s.range, s.indent)) ∧
      (o.version = o'.version →
        (parse content o).outline.statements.map Statement.kind =
            (parse content o').outline.statements.map Statement.kind ∧
          (o.bindNames = o'.bindNames →
            (parse content o).outline.statements = (parse content o').outline.statements) ∧
          (o.collect = true → o'.collect = true →
            (parse content o).diagnostics.filter Layout.isLayoutReport =
              (parse content o').diagnostics.filter Layout.isLayoutReport)) ∧
      (o.bindNames = false → ∀ s ∈ (parse content o).outline.statements, s.bindings = []) ∧
      (o.collect = false → (parse content o).diagnostics = []) := by
  refine ⟨?_, ?_, ?_, ?_⟩
  · simp only [parse, parseText, Outline.single, Layout.statements, List.map_flatMap]
    simp only [Layout.Event.map_place_statements o.version o'.version o.bindNames o'.bindNames]
  · intro hversion
    refine ⟨?_, ?_, ?_⟩
    · simp only [parse, parseText, Outline.single, Layout.statements, List.map_flatMap, hversion]
      simp only [Layout.Event.map_kind_statements o'.version o.bindNames o'.bindNames]
    · intro hbind
      simp only [parse, parseText, Outline.single, Layout.statements, hversion, hbind]
    · intro hcollect hcollect'
      simp only [parse, parseText, Layout.filter_diagnostics, hcollect, hcollect', if_true]
      simp only [Layout.Event.filter_isLayoutReport, hversion]
  · intro hbind s hs
    obtain ⟨e, -, hs⟩ := List.mem_flatMap.1 hs
    rw [hbind] at hs
    exact Layout.Event.bindings_of_mem_statements hs
  · intro hcollect
    simp [parse, parseText, Layout.diagnostics_eq, hcollect]

/-- A header whose block mixes tabs and spaces and has a bracket that does not fit, and a comment
with a keyword behind it. -/
def mixedBlock : ByteArray := "if x:\n\ta = 1\n        b = (2]  # TODO\n".toUTF8

/-- No names, nothing about mixed tabs and spaces, and one keyword. -/
def terseOptions : Options :=
  { Options.standard with
    bindNames := false
    indentation := none
    taskComments := some (.ofList [("TODO", .hint)]) }

theorem mixedBlock_keeps_shape :
    terseOptions.version = Options.standard.version ∧ terseOptions.bindNames = false ∧
      terseOptions.collect = true ∧ Options.standard.collect = true ∧
      (parse mixedBlock .standard).diagnostics.length = 2 ∧
      ((parse mixedBlock .standard).diagnostics.filter Layout.isLayoutReport).length = 1 ∧
      (parse mixedBlock terseOptions).outline.statements.map Statement.kind =
        (parse mixedBlock .standard).outline.statements.map Statement.kind ∧
      (parse mixedBlock terseOptions).diagnostics.filter Layout.isLayoutReport =
        (parse mixedBlock .standard).diagnostics.filter Layout.isLayoutReport ∧
      ∀ s ∈ (parse mixedBlock terseOptions).outline.statements, s.bindings = [] := by
  obtain ⟨-, hversion, hbind, -⟩ := options_keep_shape mixedBlock terseOptions .standard
  have hlayout := Layout.filter_diagnostics .standard
    (Layout.scan (Text.lines (decodeText mixedBlock))) Layout.isLayoutReport
  refine ⟨rfl, rfl, rfl, rfl, ?_, ?_, (hversion rfl).1, (hversion rfl).2.2 rfl rfl, hbind rfl⟩
  · exact (List.length_mergeSort _).trans (by decide +kernel)
  · exact (congrArg List.length hlayout).trans
      ((List.length_mergeSort _).trans (by decide +kernel))

end Reparse
