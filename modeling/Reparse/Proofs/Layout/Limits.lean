import Reparse.Disk
import Reparse.Proofs.Layout.Recovery
import Reparse.Proofs.Text.Widths

/-!
The numbers that the reader computes. `parseWithin` is `parse` with a check wherever a number of a
line is taken over and wherever columns or measures of an indentation are added or multiplied; it
gives nothing as soon as one of these is over its limit. Main statement: for the limits that the
size of a content sets, it is `parse`. Line numbers and columns are never above the number of
octets, measures of indentations never above eight times that, and files that are small enough to be
loaded need no more than 32 bits.
-/

namespace Reparse

/-- A number, unless it is over a limit. -/
def within (limit n : Nat) : Option Nat :=
  if n ≤ limit then some n else none

/-- A number that is within its limit is passed on. -/
theorem within_bind {α : Type} {limit n : Nat} (h : n ≤ limit) (f : Nat → Option α) :
    (within limit n >>= f) = f n := by
  rw [within, if_pos h]
  rfl

/-- The greatest line number, the greatest column and the greatest measure of an indentation. -/
structure Limits where
  line : Nat
  column : Nat
  measure : Nat
deriving DecidableEq, Repr

namespace Limits

/-- What a content of so many octets can need. -/
def ofSize (octets : Nat) : Limits :=
  ⟨octets, octets, 8 * octets⟩

/-- What numbers of 32 bits allow. -/
def words : Limits :=
  ⟨UInt32.size - 1, UInt32.size - 1, UInt32.size - 1⟩

/-- Some lines are few enough, and narrow enough for their columns and for indentations that are
nothing but tabs. -/
structure Admits (lim : Limits) (ls : List (List Char)) : Prop where
  line : ls.length ≤ lim.line + 1
  column : ∀ l ∈ ls, Text.width16 l ≤ lim.column
  measure : ∀ l ∈ ls, 8 * Text.width16 l ≤ lim.measure

variable {lim : Limits} {ls : List (List Char)}

/-- The lines of a text are admitted by limits that its octets fit in. -/
theorem admits_lines {content : ByteArray} (hline : content.size ≤ lim.line)
    (hcolumn : content.size ≤ lim.column) (hmeasure : 8 * content.size ≤ lim.measure) :
    lim.Admits (Text.lines (decodeText content)) := by
  obtain ⟨hlength, hwidth⟩ := lines_decodeText content
  refine ⟨by omega, ?_, ?_⟩
  · intro l hl
    have hle := hwidth l hl
    omega
  · intro l hl
    have hle := hwidth l hl
    omega

/-- The lines of a text that is no larger than a file may be are few and narrow enough for 32
bits. -/
theorem words_admits_lines {content : ByteArray} (h : content.size ≤ Disk.sizeLimit) :
    words.Admits (Text.lines (decodeText content)) := by
  have hlimit : 8 * Disk.sizeLimit ≤ UInt32.size - 1 := by decide
  have hmeasure : 8 * content.size ≤ UInt32.size - 1 := by omega
  have hsize : content.size ≤ UInt32.size - 1 := by omega
  exact admits_lines hsize hsize hmeasure

namespace Admits

variable {p : Position}

/-- Going on over characters of a line stays within the limit. -/
theorem right_le (h : lim.Admits ls) {cs rest : List Char} (hp : p.Before ls (cs ++ rest)) :
    p.column + Text.width16 cs ≤ lim.column := by
  obtain ⟨front, hline, hcolumn⟩ := hp
  have hwidth := h.column _ (List.mem_of_getElem? hline)
  rw [Text.width16_append, Text.width16_append] at hwidth
  omega

theorem column_le (h : lim.Admits ls) (hp : p.IsOn ls) : p.column ≤ lim.column := by
  obtain ⟨rest, hp⟩ := hp
  rw [← List.nil_append rest] at hp
  exact h.right_le hp

theorem line_le (h : lim.Admits ls) (hp : p.IsOn ls) : p.line ≤ lim.line := by
  obtain ⟨rest, front, hline, -⟩ := hp
  have hlt := (List.getElem?_eq_some_iff.1 hline).1
  have hlength := h.line
  omega

end Admits

end Limits

/-! ## Columns -/

/-- Adds the columns of a text to a number, character by character. -/
def Text.widthWithin (limit n : Nat) : List Char → Option Nat
  | [] => some n
  | c :: cs => do
    let n ← within limit (n + units16 c)
    widthWithin limit n cs

theorem Text.widthWithin_eq {limit n : Nat} {cs : List Char} (h : n + width16 cs ≤ limit) :
    widthWithin limit n cs = some (n + width16 cs) := by
  induction cs generalizing n with
  | nil => rfl
  | cons c cs ih =>
    rw [width16_cons] at h ⊢
    rw [widthWithin, within_bind (by omega), ih (by omega), Nat.add_assoc]

/-- The place some columns further on. -/
def Position.rightWithin (limit : Nat) (p : Position) (columns : Nat) : Option Position := do
  let column ← within limit (p.column + columns)
  some ⟨p.line, column⟩

theorem Position.rightWithin_eq {limit : Nat} {p : Position} {columns : Nat}
    (h : p.column + columns ≤ limit) : p.rightWithin limit columns = some (p.right columns) := by
  rw [rightWithin, within_bind h]
  rfl

/-- The place behind a text. Its columns are added up first. -/
def Position.pastWithin (limit : Nat) (p : Position) (cs : List Char) : Option Position := do
  let width ← Text.widthWithin limit 0 cs
  p.rightWithin limit width

theorem Position.pastWithin_eq {limit : Nat} {p : Position} {cs : List Char}
    (h : p.column + Text.width16 cs ≤ limit) :
    p.pastWithin limit cs = some (p.right (Text.width16 cs)) := by
  rw [pastWithin, Text.widthWithin_eq (by omega), Nat.zero_add]
  exact rightWithin_eq h

/-- The stretch of some columns that begins at a place. -/
def Range.wideWithin (limit : Nat) (p : Position) (columns : Nat) : Option Range := do
  let stop ← p.rightWithin limit columns
  some ⟨p, stop⟩

theorem Range.wideWithin_eq {limit : Nat} {p : Position} {columns : Nat}
    (h : p.column + columns ≤ limit) : wideWithin limit p columns = some (wide p columns) := by
  rw [wideWithin, Position.rightWithin_eq h]
  rfl

namespace Layout

variable {lim : Limits} {ls : List (List Char)}

/-! ## Indentations -/

namespace Indent

/-- The measures after one more character. The outer `none` is for a measure over the limit, the
inner one for a character that does not indent. -/
def extendWithin (lim : Limits) (w : Indent) (c : Char) : Option (Option Indent) :=
  if c = ' ' then do
    let column ← within lim.measure (w.column + 1)
    let narrow ← within lim.measure (w.narrow + 1)
    some (some ⟨column, narrow⟩)
  else if c = '\t' then do
    let stops ← within lim.measure (w.column / 8 + 1)
    let column ← within lim.measure (stops * 8)
    let narrow ← within lim.measure (w.narrow + 1)
    some (some ⟨column, narrow⟩)
  else some (if c = '\x0c' then some ground else none)

theorem extendWithin_eq {w : Indent} (hcolumn : w.column + 8 ≤ lim.measure)
    (hnarrow : w.narrow + 1 ≤ lim.measure) (c : Char) :
    w.extendWithin lim c = some (w.extend? c) := by
  unfold extendWithin extend?
  split
  · rw [within_bind (by omega), within_bind hnarrow]
  split
  · rw [within_bind (by omega), within_bind (by omega), within_bind hnarrow]
  split <;> rfl

/-- Measures on from `w` after `n` indenting characters. -/
def measureFromWithin (lim : Limits) (w : Indent) (n : Nat) :
    List Char → Option (Indent × Nat × List Char)
  | [] => some (w, n, [])
  | c :: cs => do
    match ← w.extendWithin lim c with
    | some w' =>
      let n ← within lim.column (n + 1)
      measureFromWithin lim w' n cs
    | none => some (w, n, c :: cs)

/-- The indentation of a line, the number of characters it takes, and the rest of the line. -/
def measureWithin (lim : Limits) (line : List Char) : Option (Indent × Nat × List Char) :=
  measureFromWithin lim ground 0 line

/-- The indentation is none of more than so many characters: each of them measures at most eight
columns, and one in the narrow measure. -/
structure Fits (w : Indent) (n : Nat) : Prop where
  column : w.column ≤ 8 * n
  narrow : w.narrow ≤ n

namespace Fits

variable {w : Indent} {n : Nat}

theorem extend? (h : w.Fits n) {c : Char} {w' : Indent} (hw' : w.extend? c = some w') :
    w'.Fits (n + 1) := by
  obtain ⟨hcolumn, hnarrow⟩ := h
  unfold Indent.extend? at hw'
  split at hw'
  · cases hw'
    constructor <;> dsimp only <;> omega
  split at hw'
  · cases hw'
    constructor <;> dsimp only <;> omega
  split at hw'
  · cases hw'
    exact ⟨Nat.zero_le _, Nat.zero_le _⟩
  · cases hw'

/-- What is measured fits the characters that it takes. -/
theorem measureFrom (h : w.Fits n) (line : List Char) :
    (measureFrom w n line).1.Fits (measureFrom w n line).2.1 := by
  induction line generalizing w n with
  | nil => exact h
  | cons c cs ih =>
    rw [Indent.measureFrom]
    cases hw' : w.extend? c with
    | none => exact h
    | some w' => exact ih (h.extend? hw')

/-- No measure of a line is over the limit if none of a line of tabs would be. -/
theorem measureFromWithin_eq (h : w.Fits n) {line : List Char}
    (hcolumn : n + line.length ≤ lim.column) (hmeasure : 8 * (n + line.length) ≤ lim.measure) :
    measureFromWithin lim w n line = some (Indent.measureFrom w n line) := by
  induction line generalizing w n with
  | nil => rfl
  | cons c cs ih =>
    obtain ⟨hwide, hnarrow⟩ := h
    rw [List.length_cons] at hcolumn hmeasure
    rw [measureFromWithin, Indent.measureFrom, extendWithin_eq (by omega) (by omega)]
    cases hw' : w.extend? c with
    | none => rfl
    | some w' =>
      refine (within_bind (by omega) _).trans ?_
      exact ih (Fits.extend? ⟨hwide, hnarrow⟩ hw') (by omega) (by omega)

end Fits

theorem fits_ground : ground.Fits 0 :=
  ⟨Nat.le_refl 0, Nat.le_refl 0⟩

theorem measureWithin_eq {line : List Char} (hcolumn : Text.width16 line ≤ lim.column)
    (hmeasure : 8 * Text.width16 line ≤ lim.measure) :
    measureWithin lim line = some (measure line) := by
  have hlength := Text.length_le_width16 line
  exact fits_ground.measureFromWithin_eq (by omega) (by omega)

end Indent

/-! ## Pieces -/

/-- The place behind a piece. -/
def Piece.nextWithin (lim : Limits) (pos : Position) : Piece → Option Position
  | comment _ => some pos
  | p => pos.pastWithin lim.column p.chars

theorem Piece.nextWithin_eq {pos : Position} {p : Piece}
    (h : pos.column + Text.width16 p.chars ≤ lim.column) :
    p.nextWithin lim pos = some (p.next pos) := by
  cases p with
  | comment text => rfl
  | _ => exact Position.pastWithin_eq h

namespace Draft

/-- What is met with a piece that stands at a place. A closer has its range whether there is
anything wrong with it or not. -/
def eventWithin (lim : Limits) (d : Draft) (pos : Position) : Piece → Option (Option Event)
  | .code c =>
    if Bracket.isCloser c then do
      let range ← Range.wideWithin lim.column pos 1
      some ((bracketFault? d.brackets c).map (.fault range))
    else some none
  | p => some (d.event? pos p)

theorem eventWithin_eq {d : Draft} {pos : Position} {p : Piece}
    (h : pos.column + Text.width16 p.chars ≤ lim.column) :
    d.eventWithin lim pos p = some (d.event? pos p) := by
  cases p with
  | code c =>
    rw [eventWithin, event?]
    split
    · rename_i hcloser
      rw [Piece.chars, Text.width16_cons, units16_of_isCloser hcloser] at h
      rw [Range.wideWithin_eq (by omega)]
      rfl
    · rename_i hcloser
      unfold bracketFault?
      rw [if_neg hcloser]
      rfl
  | _ => rfl

/-- Reads pieces from a place on. Where a piece takes the logical line further, it takes it to the
place that is next, so nothing more is added. -/
def readAllWithin (lim : Limits) (d : Draft) (pos : Position) (events : List Event) :
    List Piece → Option (Draft × Position × List Event)
  | [] => some (d, pos, events)
  | p :: ps => do
    let event ← d.eventWithin lim pos p
    let next ← p.nextWithin lim pos
    (d.read pos p).readAllWithin lim next (event.toList ++ events) ps

theorem readAllWithin_eq (h : lim.Admits ls) {d : Draft} {pos : Position} {events : List Event}
    {mode : Option Quote} {line : List Char} (hpos : pos.Before ls line) :
    d.readAllWithin lim pos events (pieces mode line) =
      some (d.readAll pos events (pieces mode line)) := by
  induction mode, line using pieces_induction generalizing d pos events with
  | nil mode => rfl
  | cons mode c cs p rest hfirst hchars hlast ih =>
    rw [← hchars] at hpos
    have hle := h.right_le hpos
    rw [readAllWithin, readAll_cons, eventWithin_eq hle, Piece.nextWithin_eq hle]
    cases hp : p.isLast with
    | true =>
      -- nothing is left to be read, so it does not matter that a comment leaves the place as it is
      rw [hlast hp]
      rfl
    | false =>
      rw [Piece.next_of_isLast_eq_false pos hp]
      exact ih hpos.right

end Draft

/-! ## Lines -/

namespace State

/-- Reads the code of a physical line from a column on. -/
def readCodeWithin (lim : Limits) (s : State) (d : Draft) (pos : Position) (line : List Char) :
    Option State := do
  let ps := pieces d.mode line
  let (d, stop, events) ← d.readAllWithin lim pos s.events ps
  some ({ s with events }.endLine d stop ps.getLast?)

/-- Reads a physical line. -/
def readLineWithin (lim : Limits) (s : State) (row : Nat) (line : List Char) : Option State := do
  let row ← within lim.line row
  match s.draft with
  | some d => s.readCodeWithin lim d ⟨row, 0⟩ line
  | none =>
    let (w, column, rest) ← Indent.measureWithin lim line
    let pos : Position := ⟨row, column⟩
    match rest with
    | [] => some s
    | c :: _ =>
      if c = '#' then some (s.emit (.comment pos rest))
      else
        (s.indent w ⟨⟨row, 0⟩, pos⟩).readCodeWithin lim (Draft.begin pos w.column) pos rest

/-- Reads lines, the first of which has the given number. -/
def readLinesWithin (lim : Limits) (s : State) (row : Nat) : List (List Char) → Option State
  | [] => some s
  | line :: rest => do
    let s ← s.readLineWithin lim row line
    s.readLinesWithin lim (row + 1) rest

variable {s : State} {row : Nat} {line : List Char}

theorem readCodeWithin_eq (h : lim.Admits ls) {d : Draft} {pos : Position}
    (hpos : pos.Before ls line) :
    s.readCodeWithin lim d pos line = some (s.readCode d pos line) := by
  rw [readCodeWithin, Draft.readAllWithin_eq h hpos]
  rfl

theorem readLineWithin_eq (h : lim.Admits ls) (hline : ls[row]? = some line) :
    s.readLineWithin lim row line = some (s.readLine row line) := by
  have hmem := List.mem_of_getElem? hline
  have hrow : row ≤ lim.line := by
    have hlt := (List.getElem?_eq_some_iff.1 hline).1
    have hlength := h.line
    omega
  have hmeasure := Indent.measureWithin_eq (h.column line hmem) (h.measure line hmem)
  have hbefore := before_measure hline
  unfold readLineWithin readLine
  rw [within_bind hrow, hmeasure]
  generalize Indent.measure line = m at hbefore
  obtain ⟨w, column, rest⟩ := m
  simp only [Option.bind_eq_bind, Option.bind_some]
  cases s.draft with
  | some d => exact readCodeWithin_eq h ⟨[], hline, rfl⟩
  | none =>
    cases rest with
    | nil => rfl
    | cons c rest =>
      by_cases hc : c = '#'
      · simp only [if_pos hc]
      · simp only [if_neg hc]
        exact readCodeWithin_eq h hbefore

theorem readLinesWithin_eq (h : lim.Admits ls) {lines : List (List Char)}
    (hlines : ls.drop row = lines) :
    s.readLinesWithin lim row lines = some (s.readLines row lines) := by
  induction lines generalizing s row with
  | nil => rfl
  | cons line lines ih =>
    have hline : ls[row]? = some line := by rw [← List.head?_drop, hlines, List.head?_cons]
    have hrest : ls.drop (row + 1) = lines := by rw [← List.tail_drop, hlines, List.tail_cons]
    rw [readLinesWithin, readLines, readLineWithin_eq h hline]
    exact ih hrest

/-! ## The end of the text -/

/-- The reader after the reports of what is open when the text ends: the string and the brackets of
the unfinished line. -/
def reportUnclosedWithin (lim : Limits) (s : State) (string : Option OpenString) :
    List OpenBracket → Option State
  | [] =>
    match string with
    | some o => do
      let f := if o.quote.triple then Fault.unterminatedTriple else .unterminatedString
      let range ← Range.wideWithin lim.column o.start o.quote.width
      some (s.emit (.fault range f))
    | none => some s
  | b :: brackets => do
    let s ← s.reportUnclosedWithin lim string brackets
    let range ← Range.wideWithin lim.column b.place 1
    some (s.emit (.fault range (.neverClosed b.opener)))

/-- The text ends. -/
def finishWithin (lim : Limits) (s : State) : Option (List Event) := do
  let s ← match s.draft with
    | some d => do
      let s ← s.reportUnclosedWithin lim d.string d.brackets
      some (s.close d)
    | none => some s
  some s.reportMissing.events.reverse

theorem reportUnclosedWithin_eq (h : lim.Admits ls) {string : Option OpenString}
    {brackets : List OpenBracket}
    (hstring : ∀ o, string = some o → (Range.wide o.start o.quote.width).IsOn ls)
    (hbrackets : ∀ b ∈ brackets, (Range.wide b.place 1).IsOn ls) :
    s.reportUnclosedWithin lim string brackets = some (s.reportUnclosed string brackets) := by
  induction brackets with
  | nil =>
    cases string with
    | none => rfl
    | some o =>
      have hstop := h.column_le (hstring o rfl).stop
      rw [reportUnclosedWithin, Range.wideWithin_eq hstop]
      rfl
  | cons b brackets ih =>
    obtain ⟨hb, hbrackets⟩ := List.forall_mem_cons.1 hbrackets
    have hstop := h.column_le hb.stop
    rw [reportUnclosedWithin, ih hbrackets, Range.wideWithin_eq hstop]
    rfl

theorem finishWithin_eq (h : lim.Admits ls) (hs : s.IsOn ls row) :
    s.finishWithin lim = some s.finish := by
  rw [finishWithin, finish_eq, abandonOpen]
  cases hd : s.draft with
  | none => rfl
  | some d =>
    obtain ⟨-, -, -, hbrackets, hstring⟩ := hs.draft d hd
    have hstarts : ∀ o, d.string = some o → (Range.wide o.start o.quote.width).IsOn ls :=
      fun o ho => (hstring o ho).1
    dsimp only
    rw [reportUnclosedWithin_eq h hstarts hbrackets]
    rfl

end State

/-- The events of a text, given by its lines. -/
def scanWithin (lim : Limits) (lines : List (List Char)) : Option (List Event) := do
  let s ← State.initial.readLinesWithin lim 0 lines
  s.finishWithin lim

theorem scanWithin_eq (h : lim.Admits ls) : scanWithin lim ls = some (scan ls) := by
  rw [scanWithin, State.readLinesWithin_eq h List.drop_zero]
  exact State.finishWithin_eq h (State.isOn_readLines ls)

/-! ## Reports -/

/-- The reports that an event brings. The columns of a comment are counted only where it begins with
a keyword. -/
def Event.diagnosticsWithin (lim : Limits) (options : Options) (finder : TaskComment.Finder) :
    Event → Option (List Diagnostic)
  | comment start text =>
    match finder.find? text with
    | none => some []
    | some t => do
      let stop ← start.pastWithin lim.column text
      some [⟨⟨start, stop⟩, t.severity, .taskComment, t.message⟩]
  | e => some (e.diagnostics options finder)

theorem Event.diagnosticsWithin_eq (h : lim.Admits ls) {e : Event} (he : e.IsOn ls)
    (options : Options) (finder : TaskComment.Finder) :
    e.diagnosticsWithin lim options finder = some (e.diagnostics options finder) := by
  cases e with
  | comment start text =>
    have hstop : start.column + Text.width16 text ≤ lim.column := h.column_le he.stop
    rw [diagnosticsWithin, diagnostics]
    cases finder.find? text with
    | none => rfl
    | some t =>
      dsimp only
      rw [Position.pastWithin_eq hstop]
      rfl
  | _ => rfl

/-- The reports on the events of a text. -/
def diagnosticsWithin (lim : Limits) (options : Options) (events : List Event) :
    Option (List Diagnostic) :=
  if options.collect then do
    let reports ← events.mapM (Event.diagnosticsWithin lim options (finder options))
    some (reports.flatten.mergeSort fun a b => a.range.start.precedes b.range.start)
  else some []

theorem diagnosticsWithin_eq (h : lim.Admits ls) {events : List Event}
    (hevents : ∀ e ∈ events, e.IsOn ls) (options : Options) :
    diagnosticsWithin lim options events = some (diagnostics options events) := by
  have hreports : events.mapM (Event.diagnosticsWithin lim options (finder options)) =
      some (events.map (Event.diagnostics options (finder options))) := by
    induction events with
    | nil => rfl
    | cons e events ih =>
      obtain ⟨he, hevents⟩ := List.forall_mem_cons.1 hevents
      rw [List.mapM_cons, Event.diagnosticsWithin_eq h he, ih hevents]
      rfl
  unfold diagnosticsWithin diagnostics
  split
  · rw [hreports, List.flatMap_def]
    rfl
  · rfl

/-! ## The indentation of a logical line -/

/-- The indentation of a logical line fits the columns in front of it. -/
theorem State.fits_beginnings (s : State) (row : Nat) (lines : List (List Char)) :
    ∀ b ∈ s.beginnings row lines, b.indent.Fits b.range.stop.column := by
  induction lines generalizing s row with
  | nil => exact nofun
  | cons line lines ih =>
    have hrest := ih (s.readLine row line) (row + 1)
    rw [beginnings]
    cases hb : s.beginning? row line with
    | none => exact hrest
    | some b =>
      refine List.forall_mem_cons.2 ⟨?_, hrest⟩
      rw [eq_begin_of_beginning? hb]
      exact Indent.fits_ground.measureFrom line

/-- A statement is indented by at most eight columns for each one in front of it. -/
theorem indent_le_of_mem_statements {text : List Char} {l : LogicalLine}
    (hl : l ∈ logicalLines text) {version : LanguageVersion} {bind : Bool} {s : Statement}
    (hs : s ∈ l.statements version bind) : s.indent ≤ 8 * s.range.start.column := by
  have hmem : (l.range.start, l.indent) ∈
      (beginnings text).map fun b => (b.range.stop, b.indent.column) := by
    rw [map_beginnings]
    exact List.mem_map_of_mem hl
  obtain ⟨b, hb, heq⟩ := List.mem_map.1 hmem
  obtain ⟨hstart, hindent⟩ := Prod.mk.inj heq
  have hfits := (State.fits_beginnings _ _ _ b hb).column
  rw [hstart, hindent] at hfits
  obtain ⟨sorted, -, rfl⟩ := List.mem_map.1 hs
  exact hfits

end Layout

/-- Parses the content of one part. -/
def parseWithin (lim : Limits) (content : ByteArray) (options : Options) : Option Parsed := do
  let events ← Layout.scanWithin lim (Text.lines (decodeText content))
  let diagnostics ← Layout.diagnosticsWithin lim options events
  some ⟨.single (Layout.statements options events), diagnostics⟩

theorem parseWithin_eq {lim : Limits} {content : ByteArray}
    (h : lim.Admits (Text.lines (decodeText content))) (options : Options) :
    parseWithin lim content options = some (parse content options) := by
  have hreports := Layout.diagnosticsWithin_eq h (Layout.isOn_scan _) options
  rw [parseWithin, Layout.scanWithin_eq h]
  simp only [hreports, Option.bind_eq_bind, Option.bind_some]
  rfl

/-- A file that is loaded is not larger than the limit. -/
theorem Disk.size_le_of_load {disk : Disk} {id : Nat} {path : String} {document : Document}
    (hload : load disk id path = .ok document) {content : ByteArray}
    (hread : disk path = .ok content) : content.size ≤ sizeLimit := by
  rw [load, hread] at hload
  dsimp only at hload
  split at hload
  · cases hload
  · omega

/-- Checked against the number of octets, the parse loses nothing: no line number and no column that
is computed on the way is above it, and no measure of an indentation above eight times it. The same
holds of the ranges and the indentations that are returned. So a content that is no larger than a
file may be, and every file that is loaded, is parsed in numbers of 32 bits. -/
theorem numbers_in_range (content : ByteArray) (options : Options) :
    parseWithin (.ofSize content.size) content options = some (parse content options) ∧
      (∀ d ∈ (parse content options).diagnostics, ∀ p ∈ [d.range.start, d.range.stop],
        p.line < content.size + 1 ∧ p.column ≤ content.size) ∧
      (∀ s ∈ (parse content options).outline.statements,
        s.indent ≤ 8 * content.size ∧ ∀ p ∈ [s.range.start, s.range.stop],
          p.line < content.size + 1 ∧ p.column ≤ content.size) ∧
      (content.size ≤ Disk.sizeLimit →
        parseWithin .words content options = some (parse content options)) ∧
      ∀ disk id path document, Disk.load disk id path = .ok document → disk path = .ok content →
        parseWithin .words content options = some (parse content options) := by
  have hadmits : (Limits.ofSize content.size).Admits (Text.lines (decodeText content)) :=
    Limits.admits_lines (Nat.le_refl _) (Nat.le_refl _) (Nat.le_refl _)
  have hplaces : ∀ r : Range, r.IsOn (Text.lines (decodeText content)) →
      ∀ p ∈ [r.start, r.stop], p.line < content.size + 1 ∧ p.column ≤ content.size := by
    intro r hr p hp
    have hon : p.IsOn (Text.lines (decodeText content)) := by
      rcases List.mem_pair.1 hp with rfl | rfl
      · exact hr.start
      · exact hr.stop
    exact ⟨Nat.lt_succ_of_le (hadmits.line_le hon), hadmits.column_le hon⟩
  have hwords : content.size ≤ Disk.sizeLimit →
      parseWithin .words content options = some (parse content options) :=
    fun hsize => parseWithin_eq (Limits.words_admits_lines hsize) options
  refine ⟨parseWithin_eq hadmits options, ?_, ?_, hwords, ?_⟩
  · intro d hd
    exact hplaces d.range (Layout.isOn_of_mem_diagnostics hd)
  · intro s hs
    have hmem : s ∈ (Layout.logicalLines (decodeText content)).flatMap
        fun l => l.statements options.version options.bindNames :=
      Layout.statements_scan options (decodeText content) ▸ hs
    obtain ⟨l, hl, hs⟩ := List.mem_flatMap.1 hmem
    have hon := (Layout.isOn_of_mem_statements hl hs).1
    have hindent := Layout.indent_le_of_mem_statements hl hs
    have hcolumn := (hplaces s.range hon s.range.start (.head _)).2
    exact ⟨by omega, hplaces s.range hon⟩
  · intro disk id path document hload hread
    exact hwords (Disk.size_le_of_load hload hread)

/-- A tab, a quote that is never closed, and two octets that begin no character. -/
def brokenQuote : ByteArray := ⟨#[0x09, 0x27, 0xFF, 0xFE]⟩

/-- The four octets take four columns and the tab measures eight; limits of one less are too low. -/
theorem brokenQuote_in_range :
    parseWithin .words brokenQuote .standard = some (parse brokenQuote .standard) ∧
      (parse brokenQuote .standard).outline.statements.map (fun s => (s.range, s.indent)) =
        [(⟨⟨0, 1⟩, ⟨0, 4⟩⟩, 8)] ∧
      parseWithin ⟨0, 3, 8⟩ brokenQuote .standard = none ∧
      parseWithin ⟨0, 4, 7⟩ brokenQuote .standard = none := by
  obtain ⟨-, -, -, hwords, -⟩ := numbers_in_range brokenQuote .standard
  exact ⟨hwords (by decide), by decide +kernel, by decide +kernel, by decide +kernel⟩

end Reparse
