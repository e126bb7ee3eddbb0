import Reparse.Layout.Event
import Reparse.Layout.Indent
import Reparse.Layout.Piece

/-!
Reading a text line by line. Between two lines there is a stack of indentations, perhaps a header
that awaits its block, and perhaps an unfinished logical line with its open brackets and its open
string. Strings and brackets belong to the logical line, so there are none where no logical line
is open. Every line adds its events to those before it, in the order in which they are met.
-/

namespace Reparse.Layout

/-- An opening bracket and its place. -/
structure OpenBracket where
  opener : Char
  place : Position
deriving DecidableEq, Repr

/-- An open string: its delimiter and where it begins. -/
structure OpenString where
  quote : Quote
  start : Position
deriving DecidableEq, Repr

/-- A logical line that is being read. Its text and its open brackets are kept newest first. -/
structure Draft where
  start : Position
  stop : Position
  indent : Nat
  text : List Char
  brackets : List OpenBracket
  string : Option OpenString
deriving DecidableEq, Repr

namespace Draft

/-- A logical line that begins at a place. -/
def begin (start : Position) (indent : Nat) : Draft :=
  ⟨start, start, indent, [], [], none⟩

/-- The delimiter of the open string. -/
def mode (d : Draft) : Option Quote :=
  d.string.map OpenString.quote

/-- The open brackets after a character of code. A closer takes one opener away, whether it fits
that one or not. -/
def stack (brackets : List OpenBracket) (pos : Position) (c : Char) : List OpenBracket :=
  if Bracket.isOpener c then ⟨c, pos⟩ :: brackets
  else if Bracket.isCloser c then brackets.tail
  else brackets

/-- The line reaches to the end of a piece that is not blank. -/
def reach (d : Draft) (pos : Position) (p : Piece) : Draft :=
  if p.chars.all Text.isBlank then d else { d with stop := pos.right (Text.width16 p.chars) }

/-- The line after a piece that stands at a place. String bodies and comments leave no trace in the
text. -/
def read (d : Draft) (pos : Position) (p : Piece) : Draft :=
  match p with
  | .code c =>
    { d.reach pos p with text := c :: d.text, brackets := stack d.brackets pos c }
  | .opening q => { d.reach pos p with text := q.chars ++ d.text, string := some ⟨q, pos⟩ }
  | .closing q => { d.reach pos p with text := q.chars ++ d.text, string := none }
  | .comment _ => d
  | _ => d.reach pos p

/-- What is wrong with a bracket, given the brackets that are open. -/
def bracketFault? (brackets : List OpenBracket) (c : Char) : Option Fault :=
  if Bracket.isCloser c then
    match brackets with
    | [] => some (.unmatched c)
    | b :: _ => if Bracket.closerOf b.opener = c then none else some (.mismatched c b.opener)
  else none

/-- What is met with a piece that stands at a place. -/
def event? (d : Draft) (pos : Position) : Piece → Option Event
  | .code c => (bracketFault? d.brackets c).map (.fault (.wide pos 1))
  | .comment text => some (.comment pos text)
  | _ => none

/-- Reads pieces from a place on, with the events before them newest first. A comment does not
move the place on. -/
def readAll (d : Draft) (pos : Position) (events : List Event) :
    List Piece → Draft × Position × List Event
  | [] => (d, pos, events)
  | p :: ps =>
    let next := match p with
      | .comment _ => pos
      | _ => pos.right (Text.width16 p.chars)
    (d.read pos p).readAll next ((d.event? pos p).toList ++ events) ps

/-- The finished logical line. -/
def finish (d : Draft) : LogicalLine :=
  ⟨⟨d.start, d.stop⟩, d.indent, d.text.reverse⟩

end Draft

/-- The reader between two physical lines: the indentations that are open above the ground
(innermost first), the header that awaits its block, the unfinished logical line, and the events
so far (newest first). -/
structure State where
  levels : List Indent
  header : Option Range
  draft : Option Draft
  events : List Event
deriving DecidableEq, Repr

namespace State

/-- Before the first line. -/
def initial : State := ⟨[], none, none, []⟩

/-- All open indentations, innermost first, down to the ground. -/
def stack (s : State) : List Indent :=
  s.levels ++ [.ground]

/-- The innermost open indentation. -/
def level (levels : List Indent) : Indent :=
  levels.headD .ground

/-- The reader after one more event. -/
def emit (s : State) (e : Event) : State :=
  { s with events := e :: s.events }

/-- The reader after one more fault, if the condition holds. -/
def faultIf (s : State) (bad : Bool) (range : Range) (f : Fault) : State :=
  if bad then s.emit (.fault range f) else s

/-- A logical line begins further in. That is right after a header and nowhere else. -/
def indentTo (s : State) (w : Indent) (range : Range) : State :=
  let top := level s.levels
  let s := s.faultIf s.header.isNone range .unexpectedIndent
  let s := s.faultIf (w.narrow ≤ top.narrow) range .mixedIndent
  { s with levels := w :: s.levels, header := none }

/-- A logical line begins no further in. A header then lacks its block; the line has to stand at an
indentation that is open, and one that it does not meet is opened, so that lines after it can. -/
def dedentTo (s : State) (w : Indent) (range : Range) : State :=
  let s := match s.header with
    | some header => s.emit (.fault header .missingBlock)
    | none => s
  let levels := s.levels.dropWhile fun t => w.column < t.column
  let top := level levels
  if w.column ≠ top.column then
    { s.emit (.fault range .unindentMismatch) with levels := w :: levels, header := none }
  else
    { s.faultIf (w.narrow != top.narrow) range .mixedIndent with levels, header := none }

/-- A logical line begins at an indentation. -/
def indent (s : State) (w : Indent) (range : Range) : State :=
  if (level s.levels).column < w.column then s.indentTo w range else s.dedentTo w range

/-- The logical line is finished. -/
def close (s : State) (d : Draft) : State :=
  let l := d.finish
  { s with
    draft := none
    header := if l.isHeader then some l.range else none
    events := .line l :: s.events }

/-- A physical line ends. A string with a single delimiter ends with it unless the end of the line
is escaped; the logical line ends with it unless a string or a bracket is open or a backslash
joins the next line. -/
def endLine (s : State) (d : Draft) (pos : Position) (last : Option Piece) : State :=
  let broken := d.string.filter fun o => !o.quote.triple && last != some .escapedBreak
  let d := if broken.isSome then { d with string := none } else d
  let s := match broken with
    | some o => s.emit (.fault ⟨o.start, pos⟩ .unterminatedString)
    | none => s
  if d.string.isNone && d.brackets.isEmpty && last != some .continuation then s.close d
  else { s with draft := some { d with text := ' ' :: d.text } }

/-- Reads the code of a physical line from a column on, as part of a logical line. -/
def readCode (s : State) (d : Draft) (pos : Position) (line : List Char) : State :=
  let ps := pieces d.mode line
  let (d, stop, events) := d.readAll pos s.events ps
  { s with events }.endLine d stop ps.getLast?

/-- Reads a physical line. Where no logical line is open, blank lines and lines with nothing but a
comment leave the indentation as it is. -/
def readLine (s : State) (row : Nat) (line : List Char) : State :=
  match s.draft with
  | some d => s.readCode d ⟨row, 0⟩ line
  | none =>
    let (w, column, rest) := Indent.measure line
    let pos : Position := ⟨row, column⟩
    match rest with
    | [] => s
    | c :: _ =>
      if c = '#' then s.emit (.comment pos rest)
      else (s.indent w ⟨⟨row, 0⟩, pos⟩).readCode (Draft.begin pos w.column) pos rest

/-- Reads lines, the first of which has the given number. -/
def readLines (s : State) (row : Nat) : List (List Char) → State
  | [] => s
  | line :: rest => (s.readLine row line).readLines (row + 1) rest

/-- The logical line that is open when the text ends: its string and its brackets are never
closed. -/
def abandon (s : State) (d : Draft) : State :=
  let s := match d.string with
    | some o =>
      let f := if o.quote.triple then Fault.unterminatedTriple else .unterminatedString
      s.emit (.fault (.wide o.start o.quote.width) f)
    | none => s
  let s := d.brackets.foldr (fun b s => s.emit (.fault (.wide b.place 1) (.neverClosed b.opener))) s
  s.close d

/-- The text ends. A header that is left has no block. -/
def finish (s : State) : List Event :=
  let s := match s.draft with
    | some d => s.abandon d
    | none => s
  let s := match s.header with
    | some header => s.emit (.fault header .missingBlock)
    | none => s
  s.events.reverse

theorem readLines_append (s : State) (row : Nat) (a b : List (List Char)) :
    s.readLines row (a ++ b) = (s.readLines row a).readLines (row + a.length) b := by
  induction a generalizing s row with
  | nil => rfl
  | cons line a ih =>
    rw [List.cons_append, readLines, readLines, ih, List.length_cons]
    congr 1
    omega

end State

/-- The events of a text, given by its lines. -/
def scan (lines : List (List Char)) : List Event :=
  (State.initial.readLines 0 lines).finish

end Reparse.Layout
