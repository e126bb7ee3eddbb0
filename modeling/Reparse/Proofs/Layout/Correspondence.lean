import Mathlib.Data.List.Forall2
import Reparse.Proofs.Layout.Reports
import Reparse.Proofs.Layout.Token

/-!
Two readers at different places. The reader writes the places where something begins into its events
and never looks at them, so two readers that read the same characters at places that correspond, in
whatever sense, have events that correspond. Nothing is said of the places where something ends:
these may be apart. Where the sense keeps the order of places, the reports are sorted alike.
-/

namespace Reparse.Layout

section Corresponds

variable (R : Position → Position → Prop)

/-- The same opening bracket, but for its place. -/
def OpenBracket.Corresponds (b b' : OpenBracket) : Prop :=
  b.opener = b'.opener ∧ R b.place b'.place

/-- The same open string, but for the place where it begins. -/
def OpenString.Corresponds (o o' : OpenString) : Prop :=
  o.quote = o'.quote ∧ R o.start o'.start

/-- Ranges that begin at places that correspond. -/
def StartsCorrespond (r r' : Range) : Prop :=
  R r.start r'.start

/-- The same unfinished logical line, but for its places. -/
structure Draft.Corresponds (d d' : Draft) : Prop where
  start : R d.start d'.start
  indent : d.indent = d'.indent
  text : d.text = d'.text
  brackets : List.Forall₂ (OpenBracket.Corresponds R) d.brackets d'.brackets
  string : Option.Rel (OpenString.Corresponds R) d.string d'.string

/-- The same event, but for its places. Of a logical line only the simple statements matter. -/
inductive Event.Corresponds : Event → Event → Prop
  | comment {p p' : Position} (text : List Char) : R p p' →
    Corresponds (.comment p text) (.comment p' text)
  | fault {r r' : Range} (f : Fault) : StartsCorrespond R r r' →
    Corresponds (.fault r f) (.fault r' f)
  | line {l l' : LogicalLine} : StartsCorrespond R l.range l'.range → l.indent = l'.indent →
    segments l.text = segments l'.text → Corresponds (.line l) (.line l')

/-- The same reader, but for its places and for the unfinished logical line. -/
structure State.Resembles (s s' : State) : Prop where
  levels : s.levels = s'.levels
  header : Option.Rel (StartsCorrespond R) s.header s'.header
  events : List.Forall₂ (Event.Corresponds R) s.events s'.events

/-- The same reader, but for its places. -/
structure State.Corresponds (s s' : State) : Prop extends State.Resembles R s s' where
  draft : Option.Rel (Draft.Corresponds R) s.draft s'.draft

end Corresponds

variable {R : Position → Position → Prop}

theorem isNone_eq_of_rel {α β : Type} {r : α → β → Prop} {a : Option α} {b : Option β}
    (h : Option.Rel r a b) : a.isNone = b.isNone := by
  cases h <;> rfl

/-! ## Pieces -/

namespace Draft.Corresponds

variable {d d' : Draft} {pos pos' : Position}

theorem mode (h : d.Corresponds R d') : d.mode = d'.mode := by
  obtain ⟨start, stop, indent, text, brackets, string⟩ := d
  obtain ⟨start', stop', indent', text', brackets', string'⟩ := d'
  cases h.string with
  | none => rfl
  | some hquote => exact congrArg some hquote.1

theorem begin (hpos : R pos pos') (indent : Nat) :
    (Draft.begin pos indent).Corresponds R (.begin pos' indent) :=
  ⟨hpos, rfl, rfl, .nil, .none⟩

theorem stack {bs bs' : List OpenBracket} (h : List.Forall₂ (OpenBracket.Corresponds R) bs bs')
    (hpos : R pos pos') (c : Char) :
    List.Forall₂ (OpenBracket.Corresponds R) (Draft.stack bs pos c) (Draft.stack bs' pos' c) := by
  unfold Draft.stack
  split
  · exact .cons ⟨rfl, hpos⟩ h
  split
  · cases h with
    | nil => exact .nil
    | cons _ h => exact h
  · exact h

theorem bracketFault? {bs bs' : List OpenBracket}
    (h : List.Forall₂ (OpenBracket.Corresponds R) bs bs') (c : Char) :
    Draft.bracketFault? bs c = Draft.bracketFault? bs' c := by
  unfold Draft.bracketFault?
  cases h with
  | nil => rfl
  | cons hb _ => simp only [hb.1]

theorem reach (h : d.Corresponds R d') (pos pos' : Position) (p : Piece) :
    (d.reach pos p).Corresponds R (d'.reach pos' p) := by
  unfold Draft.reach
  split
  · exact h
  · exact ⟨h.start, h.indent, h.text, h.brackets, h.string⟩

theorem read (h : d.Corresponds R d') (hpos : R pos pos') (p : Piece) :
    (d.read pos p).Corresponds R (d'.read pos' p) := by
  have hreach := h.reach pos pos' p
  cases p with
  | code c =>
    exact ⟨hreach.start, hreach.indent, congrArg (c :: ·) h.text, stack h.brackets hpos c,
      hreach.string⟩
  | opening q =>
    exact ⟨hreach.start, hreach.indent, congrArg (q.chars ++ ·) h.text, hreach.brackets,
      .some ⟨rfl, hpos⟩⟩
  | closing q =>
    exact ⟨hreach.start, hreach.indent, congrArg (q.chars ++ ·) h.text, hreach.brackets, .none⟩
  | comment text => exact h
  | _ => exact hreach

theorem event? (h : d.Corresponds R d') (hpos : R pos pos') (p : Piece) :
    List.Forall₂ (Event.Corresponds R) (d.event? pos p).toList (d'.event? pos' p).toList := by
  cases p with
  | code c =>
    rw [Draft.event?, Draft.event?, bracketFault? h.brackets]
    cases Draft.bracketFault? d'.brackets c with
    | none => exact .nil
    | some f => exact .cons (.fault f hpos) .nil
  | comment text => exact .cons (.comment text hpos) .nil
  | _ => exact .nil

end Draft.Corresponds

/-- The places over some columns from here on correspond. -/
def Along (R : Position → Position → Prop) (width : Nat) (pos pos' : Position) : Prop :=
  ∀ columns ≤ width, R (pos.right columns) (pos'.right columns)

namespace Along

variable {pos pos' : Position} {width : Nat}

theorem here (h : Along R width pos pos') : R pos pos' :=
  h 0 (Nat.zero_le width)

theorem next {p : Piece} (h : Along R (Text.width16 p.chars + width) pos pos') :
    Along R width (p.next pos) (p.next pos') := by
  intro columns hle
  cases p with
  | comment text => exact h columns (hle.trans (Nat.le_add_left _ _))
  | _ =>
    rw [Piece.next, Piece.next, right_right, right_right]
    · exact h _ (Nat.add_le_add_left hle _)
    all_goals exact nofun

end Along

theorem Draft.Corresponds.readAll {d d' : Draft} (h : d.Corresponds R d') {ps : List Piece}
    {pos pos' : Position} (hpos : Along R (Text.width16 (ps.flatMap Piece.chars)) pos pos')
    {events events' : List Event} (hevents : List.Forall₂ (Event.Corresponds R) events events') :
    (d.readAll pos events ps).1.Corresponds R (d'.readAll pos' events' ps).1 ∧
      List.Forall₂ (Event.Corresponds R) (d.readAll pos events ps).2.2
        (d'.readAll pos' events' ps).2.2 := by
  induction ps generalizing d d' pos pos' events events' with
  | nil => exact ⟨h, hevents⟩
  | cons p ps ih =>
    rw [List.flatMap_cons, Text.width16_append] at hpos
    rw [readAll_cons, readAll_cons]
    exact ih (h.read hpos.here p) hpos.next (List.rel_append (h.event? hpos.here p) hevents)

/-! ## The end of a line -/

namespace Draft.Corresponds

variable {d d' : Draft}

theorem broken? (h : d.Corresponds R d') (last : Option Piece) :
    Option.Rel (OpenString.Corresponds R) (d.broken? last) (d'.broken? last) := by
  obtain ⟨start, stop, indent, text, brackets, string⟩ := d
  obtain ⟨start', stop', indent', text', brackets', string'⟩ := d'
  cases h.string with
  | none => exact .none
  | @some o o' ho =>
    simp only [Draft.broken?, Option.filter_some, ho.1]
    split
    · exact .some ho
    · exact .none

theorem breakLine (h : d.Corresponds R d') (last : Option Piece) :
    (d.breakLine last).Corresponds R (d'.breakLine last) := by
  have hbroken : (d.broken? last).isSome = (d'.broken? last).isSome := by
    rw [← Option.not_isNone, ← Option.not_isNone, isNone_eq_of_rel (h.broken? last)]
  unfold Draft.breakLine
  rw [hbroken]
  split
  · exact ⟨h.start, h.indent, h.text, h.brackets, .none⟩
  · exact h

theorem isComplete (h : d.Corresponds R d') (last : Option Piece) :
    d.isComplete last = d'.isComplete last := by
  have hbrackets : d.brackets.isEmpty = d'.brackets.isEmpty := by
    rw [Bool.eq_iff_iff, List.isEmpty_iff_length_eq_zero, List.isEmpty_iff_length_eq_zero,
      h.brackets.length_eq]
  rw [Draft.isComplete, Draft.isComplete, isNone_eq_of_rel h.string, hbrackets]

end Draft.Corresponds

theorem LogicalLine.isHeader_congr {l l' : LogicalLine} (h : segments l.text = segments l'.text) :
    l.isHeader = l'.isHeader := by
  rw [isHeader, isHeader, h]

theorem Event.corresponds_refl (hR : ∀ p, R p p) (e : Event) : e.Corresponds R e := by
  cases e with
  | comment p text => exact .comment text (hR p)
  | fault r f => exact .fault f (hR r.start)
  | line l => exact .line (hR l.range.start) rfl rfl

namespace State

namespace Resembles

variable {s s' : State}

theorem refl (hR : ∀ p, R p p) (s : State) : s.Resembles R s := by
  refine ⟨rfl, ?_, List.forall₂_same.2 fun e _ => e.corresponds_refl hR⟩
  cases s.header with
  | none => exact .none
  | some r => exact .some (hR r.start)

theorem emit (h : s.Resembles R s') {e e' : Event} (he : e.Corresponds R e') :
    (s.emit e).Resembles R (s'.emit e') :=
  ⟨h.levels, h.header, .cons he h.events⟩

theorem faultIf (h : s.Resembles R s') (bad : Bool) {r r' : Range} (hr : StartsCorrespond R r r')
    (f : Fault) : (s.faultIf bad r f).Resembles R (s'.faultIf bad r' f) := by
  unfold State.faultIf
  split
  · exact h.emit (.fault f hr)
  · exact h

theorem reportMissing (h : s.Resembles R s') : s.reportMissing.Resembles R s'.reportMissing := by
  obtain ⟨levels, header, draft, events⟩ := s
  obtain ⟨levels', header', draft', events'⟩ := s'
  cases h.header with
  | none => exact h
  | some hr => exact h.emit (.fault _ hr)

theorem indentTo (h : s.Resembles R s') (w : Indent) {r r' : Range} (hr : StartsCorrespond R r r') :
    (s.indentTo w r).Resembles R (s'.indentTo w r') := by
  have hheader := isNone_eq_of_rel h.header
  have hfaults := (h.faultIf s.header.isNone hr .unexpectedIndent).faultIf
    (w.narrow ≤ (level s.levels).narrow) hr .mixedIndent
  unfold State.indentTo
  rw [← hheader, ← h.levels]
  exact ⟨by simp [h.levels], .none, hfaults.events⟩

theorem dedentTo (h : s.Resembles R s') (w : Indent) {r r' : Range} (hr : StartsCorrespond R r r') :
    (s.dedentTo w r).Resembles R (s'.dedentTo w r') := by
  rw [dedentTo_eq, dedentTo_eq, h.levels]
  dsimp only
  split
  · exact ⟨rfl, .none, (h.reportMissing.emit (.fault .unindentMismatch hr)).events⟩
  · exact ⟨rfl, .none, (h.reportMissing.faultIf _ hr .mixedIndent).events⟩

theorem indent (h : s.Resembles R s') (w : Indent) {r r' : Range} (hr : StartsCorrespond R r r') :
    (s.indent w r).Resembles R (s'.indent w r') := by
  unfold State.indent
  rw [h.levels]
  split
  · exact h.indentTo w hr
  · exact h.dedentTo w hr

theorem reportBroken (h : s.Resembles R s') {broken broken' : Option OpenString}
    (hbroken : Option.Rel (OpenString.Corresponds R) broken broken') (pos pos' : Position) :
    (s.reportBroken broken pos).Resembles R (s'.reportBroken broken' pos') := by
  cases hbroken with
  | none => exact h
  | some ho => exact h.emit (.fault _ ho.2)

/-- Logical lines are closed alike also where their texts are not the same but have the same
segments. -/
theorem close (h : s.Resembles R s') {d d' : Draft} (hstart : R d.start d'.start)
    (hindent : d.indent = d'.indent) (htext : segments d.text.reverse = segments d'.text.reverse) :
    (s.close d).Corresponds R (s'.close d') := by
  have hheader : d.finish.isHeader = d'.finish.isHeader := LogicalLine.isHeader_congr htext
  refine ⟨⟨h.levels, ?_, .cons (.line hstart hindent htext) h.events⟩, .none⟩
  simp only [State.close, hheader]
  split
  · exact .some hstart
  · exact .none

theorem endLine (h : s.Resembles R s') {d d' : Draft} (hd : d.Corresponds R d')
    (pos pos' : Position) (last : Option Piece) :
    (s.endLine d pos last).Corresponds R (s'.endLine d' pos' last) := by
  have hreport := h.reportBroken (hd.broken? last) pos pos'
  have hbreak := hd.breakLine last
  rw [endLine_eq, endLine_eq]
  dsimp only
  rw [hbreak.isComplete last]
  split
  · exact hreport.close hbreak.start hbreak.indent (by rw [hbreak.text])
  · exact ⟨⟨hreport.levels, hreport.header, hreport.events⟩, .some ⟨hbreak.start, hbreak.indent,
      congrArg (' ' :: ·) hbreak.text, hbreak.brackets, hbreak.string⟩⟩

end Resembles

/-! ## Lines -/

variable {s s' : State}

theorem Resembles.readPieces (h : s.Resembles R s') {d d' : Draft} (hd : d.Corresponds R d')
    {pos pos' : Position} {ps : List Piece}
    (hpos : Along R (Text.width16 (ps.flatMap Piece.chars)) pos pos') :
    (s.readPieces d pos ps).Corresponds R (s'.readPieces d' pos' ps) := by
  obtain ⟨hread, hevents⟩ := hd.readAll hpos h.events
  have hmet : State.Resembles R { s with events := (d.readAll pos s.events ps).2.2 }
      { s' with events := (d'.readAll pos' s'.events ps).2.2 } :=
    ⟨h.levels, h.header, hevents⟩
  exact hmet.endLine hread _ _ _

theorem Resembles.readCode (h : s.Resembles R s') {d d' : Draft} (hd : d.Corresponds R d')
    {pos pos' : Position} {line : List Char} (hpos : Along R (Text.width16 line) pos pos') :
    (s.readCode d pos line).Corresponds R (s'.readCode d' pos' line) := by
  rw [readCode_eq_readPieces, readCode_eq_readPieces, hd.mode]
  exact h.readPieces hd (by rwa [flatMap_chars_pieces])

namespace Corresponds

theorem readLine (h : s.Corresponds R s') {row row' : Nat}
    (hrow : ∀ column, R ⟨row, column⟩ ⟨row', column⟩) (line : List Char) :
    (s.readLine row line).Corresponds R (s'.readLine row' line) := by
  have halong : ∀ width column, Along R width ⟨row, column⟩ ⟨row', column⟩ :=
    fun _ _ _ _ => hrow _
  obtain ⟨levels, header, draft, events⟩ := s
  obtain ⟨levels', header', draft', events'⟩ := s'
  cases h.draft with
  | some hd => exact h.readCode hd (halong _ 0)
  | none =>
    cases hcode : isCodeLine line with
    | false =>
      rw [readLine_of_not_isCodeLine rfl hcode, readLine_of_not_isCodeLine rfl hcode]
      refine ⟨⟨h.levels, h.header, List.rel_append ?_ h.events⟩, h.draft⟩
      unfold comment?
      split
      · exact .nil
      · exact .cons (.comment _ (hrow _)) .nil
    | true =>
      rw [readLine_of_isCodeLine rfl hcode, readLine_of_isCodeLine rfl hcode]
      have hindent := h.indent (Indent.measure line).1
        (show StartsCorrespond R ⟨⟨row, 0⟩, ⟨row, (Indent.measure line).2.1⟩⟩
          ⟨⟨row', 0⟩, ⟨row', (Indent.measure line).2.1⟩⟩ from hrow 0)
      exact hindent.readCode (.begin (hrow _) _) (halong _ _)

theorem readLines (h : s.Corresponds R s') {row row' : Nat} {lines : List (List Char)}
    (hrow : ∀ i < lines.length, ∀ column, R ⟨row + i, column⟩ ⟨row' + i, column⟩) :
    (s.readLines row lines).Corresponds R (s'.readLines row' lines) := by
  induction lines generalizing s s' row row' with
  | nil => exact h
  | cons line lines ih =>
    refine ih (h.readLine (hrow 0 (Nat.succ_pos _)) line) fun i hi column => ?_
    rw [Nat.add_right_comm, Nat.add_right_comm row']
    exact hrow (i + 1) (Nat.succ_lt_succ hi) column

end Corresponds

theorem corresponds_initial (R : Position → Position → Prop) : initial.Corresponds R initial :=
  ⟨⟨rfl, .none, .nil⟩, .none⟩

/-! ## The end of the text -/

theorem Resembles.reportUnclosed (h : s.Resembles R s') {string string' : Option OpenString}
    (hstring : Option.Rel (OpenString.Corresponds R) string string')
    {brackets brackets' : List OpenBracket}
    (hbrackets : List.Forall₂ (OpenBracket.Corresponds R) brackets brackets') :
    (s.reportUnclosed string brackets).Resembles R (s'.reportUnclosed string' brackets') := by
  induction hbrackets with
  | nil =>
    cases hstring with
    | none => exact h
    | @some o o' ho =>
      have hquote := ho.1
      simp only [State.reportUnclosed, List.foldr_nil, hquote]
      exact h.emit (.fault _ ho.2)
  | @cons b b' _ _ hb _ ih =>
    have hopener := hb.1
    simp only [State.reportUnclosed, List.foldr_cons, hopener]
    exact ih.emit (.fault _ hb.2)

/-- What is left at the end of the text is reported alike where also the logical line that is open
then is abandoned alike. -/
theorem Resembles.finish (h : s.abandonOpen.Resembles R s'.abandonOpen) :
    List.Forall₂ (Event.Corresponds R) s.finish s'.finish := by
  rw [finish_eq, finish_eq]
  exact List.rel_reverse h.reportMissing.events

theorem Corresponds.finish (h : s.Corresponds R s') :
    List.Forall₂ (Event.Corresponds R) s.finish s'.finish := by
  refine Resembles.finish ?_
  obtain ⟨levels, header, draft, events⟩ := s
  obtain ⟨levels', header', draft', events'⟩ := s'
  cases h.draft with
  | none => exact h.toResembles
  | some hd =>
    have hreport := h.reportUnclosed hd.string hd.brackets
    exact (hreport.close hd.start hd.indent (by rw [hd.text])).toResembles

end State

/-! ## What is made of the events -/

/-- The same report, but for its place. -/
structure DiagnosticsCorrespond (R : Position → Position → Prop) (d d' : Diagnostic) : Prop where
  start : R d.range.start d'.range.start
  severity : d.severity = d'.severity
  source : d.source = d'.source
  message : d.message = d'.message

namespace Event.Corresponds

variable {e e' : Event}

theorem statements (h : e.Corresponds R e') (version : LanguageVersion) (bind : Bool) :
    (e.statements version bind).map (fun s => (s.kind, s.bindings, s.indent)) =
      (e'.statements version bind).map (fun s => (s.kind, s.bindings, s.indent)) := by
  cases h with
  | line _ hindent htext =>
    simp [Event.statements, LogicalLine.statements, LogicalLine.sorted, hindent, htext]
  | _ => rfl

theorem report {r r' : Range} (h : StartsCorrespond R r r') (options : Options) (f : Fault) :
    List.Forall₂ (DiagnosticsCorrespond R) (Event.report options r f)
      (Event.report options r' f) := by
  unfold Event.report
  dsimp only
  generalize (if f = .mixedIndent then options.indentation else some Severity.error) = severity
  cases severity with
  | none => exact .nil
  | some severity => exact .cons ⟨h, rfl, rfl, rfl⟩ .nil

theorem diagnostics (h : e.Corresponds R e') (options : Options) (finder : TaskComment.Finder) :
    List.Forall₂ (DiagnosticsCorrespond R) (e.diagnostics options finder)
      (e'.diagnostics options finder) := by
  cases h with
  | comment text hp =>
    unfold Event.diagnostics
    dsimp only
    cases finder.find? text with
    | none => exact .nil
    | some hit => exact .cons ⟨hp, rfl, rfl, rfl⟩ .nil
  | fault f hr => exact report hr options f
  | @line l l' hr _ htext =>
    have hfaults : l.faults options.version = l'.faults options.version := by
      rw [LogicalLine.faults, LogicalLine.faults, LogicalLine.sorted, LogicalLine.sorted, htext]
    unfold Event.diagnostics
    dsimp only
    rw [hfaults]
    induction l'.faults options.version with
    | nil => exact .nil
    | cons f fs ih => exact List.rel_append (report hr options f) ih

end Event.Corresponds

theorem map_eq_of_diagnosticsCorrespond {ds ds' : List Diagnostic}
    (h : List.Forall₂ (DiagnosticsCorrespond R) ds ds') :
    ds.map (fun d => (d.severity, d.source, d.message)) =
      ds'.map (fun d => (d.severity, d.source, d.message)) := by
  induction h with
  | nil => rfl
  | cons hd _ ih => rw [List.map_cons, List.map_cons, ih, hd.severity, hd.source, hd.message]

/-- Statements of events that correspond are the same, but for their places. -/
theorem map_statements_of_correspond {events events' : List Event}
    (h : List.Forall₂ (Event.Corresponds R) events events') (options : Options) :
    (statements options events).map (fun s => (s.kind, s.bindings, s.indent)) =
      (statements options events').map (fun s => (s.kind, s.bindings, s.indent)) := by
  unfold statements
  induction h with
  | nil => rfl
  | cons he _ ih =>
    rw [List.flatMap_cons, List.flatMap_cons, List.map_append, List.map_append, ih, he.statements]

/-- Reports on events that correspond are the same in their order, but for their places, if these
are in the same order. -/
theorem map_diagnostics_of_correspond
    (hR : ∀ p p' q q', R p p' → R q q' → p.precedes q = p'.precedes q')
    {events events' : List Event} (h : List.Forall₂ (Event.Corresponds R) events events')
    (options : Options) :
    (diagnostics options events).map (fun d => (d.severity, d.source, d.message)) =
      (diagnostics options events').map (fun d => (d.severity, d.source, d.message)) := by
  rw [diagnostics_eq, diagnostics_eq]
  split
  · have hmet : List.Forall₂ (DiagnosticsCorrespond R)
        (events.flatMap (Event.diagnostics options (finder options)))
        (events'.flatMap (Event.diagnostics options (finder options))) := by
      induction h with
      | nil => exact .nil
      | cons he _ ih => exact List.rel_append (he.diagnostics options _) ih
    exact map_eq_of_diagnosticsCorrespond (forall₂_mergeSort Diagnostic.byStart_trans
      Diagnostic.byStart_total (fun a b a' b' ha hb => hR _ _ _ _ ha.start hb.start) hmet)
  · rfl

end Layout

/-- What a parse tells beside the places: the kind, the names and the indentation of each statement,
and the severity, the source and the words of each report. -/
def Parsed.withoutPlaces (p : Parsed) :
    List (Statement.Kind × List String × Nat) × List (Severity × Diagnostic.Source × String) :=
  (p.outline.statements.map fun s => (s.kind, s.bindings, s.indent),
    p.diagnostics.map fun d => (d.severity, d.source, d.message))

theorem withoutPlaces_of_correspond {R : Position → Position → Prop}
    (hR : ∀ p p' q q', R p p' → R q q' → p.precedes q = p'.precedes q')
    {events events' : List Layout.Event}
    (h : List.Forall₂ (Layout.Event.Corresponds R) events events') (options : Options) :
    Parsed.withoutPlaces
        ⟨.single (Layout.statements options events), Layout.diagnostics options events⟩ =
      Parsed.withoutPlaces
        ⟨.single (Layout.statements options events'), Layout.diagnostics options events'⟩ :=
  Prod.ext (Layout.map_statements_of_correspond h options)
    (Layout.map_diagnostics_of_correspond hR h options)

end Reparse
