import Reparse.Proofs.Layout.Reports
import Reparse.Proofs.Layout.Token

/-!
The reader of lines and the tokens of the whole text agree. The comments that it meets and the
strings that it finds unclosed are the findings among the tokens, and a logical line has, of every
line on which it stands, the characters outside comments and strings and the delimiters of strings.
The proof goes line by line: between two lines, the string that is open says where the tokens go on.
-/

namespace Reparse.Layout

/-! ## Pieces -/

/-- The finding that an event is. -/
def Event.token? : Event → Option Token
  | comment start text => some ⟨start, .comment text⟩
  | fault range .unterminatedString => some ⟨range.start, .unterminated false⟩
  | fault range .unterminatedTriple => some ⟨range.start, .unterminated true⟩
  | _ => none

/-- What the piece leaves in the text of its logical line. -/
def Piece.trace : Piece → List Char
  | code c => [c]
  | opening q | closing q => q.chars
  | _ => []

/-- What is seen of the piece outside comments and strings, delimiters included. -/
def Piece.visible : Piece → List Char
  | code c => [c]
  | opening q | closing q => q.chars
  | continuation => ['\\']
  | _ => []

/-- What is seen of the token outside comments and strings, delimiters included. -/
def Token.visible (t : Token) : List Char :=
  match t.lexeme with
  | .code c => [c]
  | .opening q | .closing q => q.chars
  | _ => []

/-- What is seen outside comments and strings on a line of the text. -/
def visibleOn (line : Nat) (ts : List Token) : List Char :=
  ts.flatMap fun t => if t.place.line = line then t.visible else []

theorem visibleOn_append (line : Nat) (ts ts' : List Token) :
    visibleOn line (ts ++ ts') = visibleOn line ts ++ visibleOn line ts' :=
  List.flatMap_append

namespace Draft

variable (d : Draft) (pos : Position) (events : List Event)

theorem token?_event? (p : Piece) :
    (d.event? pos p).toList.filterMap Event.token? = findings (p.tokens pos) := by
  cases p with
  | code c =>
    simp only [event?, bracketFault?, Piece.tokens]
    split
    · split
      · rfl
      · split <;> rfl
    · rfl
  | _ => rfl

/-- The findings of pieces are among their tokens. -/
theorem findings_readAll (ps : List Piece) :
    (d.readAll pos events ps).2.2.reverse.filterMap Event.token? =
      events.reverse.filterMap Event.token? ++ findings (pieceTokens pos ps) := by
  induction ps generalizing d pos events with
  | nil => simp [pieceTokens, findings]
  | cons p ps ih =>
    have hreverse : (d.event? pos p).toList.reverse = (d.event? pos p).toList := by
      cases d.event? pos p <;> rfl
    rw [readAll_cons, ih, List.reverse_append, List.filterMap_append, hreverse, token?_event?,
      pieceTokens, findings_append, List.append_assoc]

theorem start_read (p : Piece) : (d.read pos p).start = d.start := by
  have hreach : (d.reach pos p).start = d.start := by
    unfold reach
    split <;> rfl
  cases p with
  | comment text => rfl
  | _ => exact hreach

theorem brackets_read (p : Piece) :
    (d.read pos p).brackets =
      match p with
      | .code c => stack d.brackets pos c
      | _ => d.brackets := by
  have hreach : (d.reach pos p).brackets = d.brackets := by
    unfold reach
    split <;> rfl
  cases p with
  | code c => rfl
  | comment text => rfl
  | _ => exact hreach

theorem text_read (p : Piece) : (d.read pos p).text.reverse = d.text.reverse ++ p.trace := by
  have hreach : (d.reach pos p).text = d.text := by
    unfold reach
    split <;> rfl
  cases p <;> simp [read, hreach, Piece.trace, Quote.chars]

theorem start_readAll (ps : List Piece) : (d.readAll pos events ps).1.start = d.start := by
  induction ps generalizing d pos events with
  | nil => rfl
  | cons p ps ih => rw [readAll_cons, ih, start_read]

theorem text_readAll (ps : List Piece) :
    (d.readAll pos events ps).1.text.reverse = d.text.reverse ++ ps.flatMap Piece.trace := by
  induction ps generalizing d pos events with
  | nil => simp
  | cons p ps ih => rw [readAll_cons, ih, text_read, List.flatMap_cons, List.append_assoc]

end Draft

theorem line_next (pos : Position) (p : Piece) : (p.next pos).line = pos.line := by
  cases p <;> rfl

/-- What is seen of pieces is seen on their line. -/
theorem visibleOn_pieceTokens (line : Nat) (pos : Position) (ps : List Piece) :
    visibleOn line (pieceTokens pos ps) =
      if pos.line = line then ps.flatMap Piece.visible else [] := by
  have hone : ∀ (pos : Position) lexeme, visibleOn line [⟨pos, lexeme⟩] =
      if pos.line = line then Token.visible ⟨pos, lexeme⟩ else [] :=
    fun pos lexeme => List.append_nil _
  induction ps generalizing pos with
  | nil => exact (ite_self _).symm
  | cons p ps ih =>
    have hp : visibleOn line (p.tokens pos) = if pos.line = line then p.visible else [] := by
      cases p with
      | escape c =>
        have hsplit : (Piece.escape c).tokens pos =
            [⟨pos, .body '\\'⟩] ++ [⟨pos.right 1, .body c⟩] := rfl
        have hbody : ∀ pos d, Token.visible ⟨pos, .body d⟩ = [] := fun _ _ => rfl
        have hescape : (Piece.escape c).visible = [] := rfl
        rw [hsplit, visibleOn_append, hone, hone, hbody, hbody, hescape, ite_self, ite_self,
          List.append_nil]
      | _ => exact hone pos _
    rw [pieceTokens, visibleOn_append, hp, ih, line_next]
    split <;> rfl

theorem Piece.exists_visible_eq (p : Piece) :
    ∃ back, (back = [] ∨ back = ['\\']) ∧ p.visible = p.trace ++ back := by
  cases p with
  | continuation => exact ⟨['\\'], .inr rfl, rfl⟩
  | _ => exact ⟨[], .inl rfl, (List.append_nil _).symm⟩

theorem Piece.visible_of_isLast_eq_false {p : Piece} (h : p.isLast = false) :
    p.visible = p.trace := by
  cases p with
  | continuation => cases h
  | _ => rfl

/-- A backslash at the end of a line is seen there, and leaves no trace in the logical line. -/
theorem exists_visible_pieces (mode : Option Quote) (line : List Char) :
    ∃ back, (back = [] ∨ back = ['\\']) ∧
      (pieces mode line).flatMap Piece.visible =
        (pieces mode line).flatMap Piece.trace ++ back := by
  induction mode, line using pieces_induction with
  | nil mode => exact ⟨[], .inl rfl, rfl⟩
  | cons mode c cs p rest _ _ hlast ih =>
    rw [List.flatMap_cons, List.flatMap_cons]
    cases hp : p.isLast with
    | true =>
      obtain ⟨back, hback, heq⟩ := p.exists_visible_eq
      rw [hlast hp]
      exact ⟨back, hback, by simpa using heq⟩
    | false =>
      obtain ⟨back, hback, heq⟩ := ih
      refine ⟨back, hback, ?_⟩
      rw [heq, Piece.visible_of_isLast_eq_false hp, List.append_assoc]

/-! ## The reader -/

namespace State

/-- The findings so far. -/
def found (s : State) : List Token :=
  s.events.reverse.filterMap Event.token?

/-- Where the tokens go on behind what has been read. -/
def mode (s : State) : Mode :=
  .behind (s.draft.bind Draft.string) none

variable (s : State)

theorem found_emit (e : Event) : (s.emit e).found = s.found ++ e.token?.toList := by
  rw [found, emit, List.reverse_cons, List.filterMap_append, found]
  cases h : e.token? <;> simp [h]

theorem found_faultIf {f : Fault} (hf : ∀ range, (Event.fault range f).token? = none) (bad : Bool)
    (range : Range) : (s.faultIf bad range f).found = s.found := by
  unfold faultIf
  split
  · rw [found_emit, hf]
    exact List.append_nil _
  · rfl

@[simp]
theorem found_reportMissing : s.reportMissing.found = s.found := by
  unfold reportMissing
  split
  · exact (found_emit _ _).trans (List.append_nil _)
  · rfl

/-- What is wrong with an indentation is no finding. -/
theorem found_indent (w : Indent) (range : Range) : (s.indent w range).found = s.found := by
  have hfault : ∀ (t : State) (bad : Bool),
      (t.faultIf bad range .mixedIndent).found = t.found :=
    fun t bad => found_faultIf t (fun _ => rfl) bad range
  unfold indent
  split
  · exact (hfault _ _).trans (found_faultIf s (fun _ => rfl) _ range)
  · rw [dedentTo_eq]
    dsimp only
    split
    · exact ((found_emit _ _).trans (List.append_nil _)).trans s.found_reportMissing
    · exact (hfault _ _).trans s.found_reportMissing

/-- What the end of a line makes of the open string, for the reader and for the tokens. -/
theorem broken?_cases (d : Draft) (last : Option Piece) (pos : Position) :
    (∃ o, d.broken? last = some o ∧
        findings ((Mode.behind d.string last).lineEnd pos) = [⟨o.start, .unterminated false⟩] ∧
        (Mode.behind d.string last).next = .code) ∨
      d.broken? last = none ∧ findings ((Mode.behind d.string last).lineEnd pos) = [] ∧
        (Mode.behind d.string last).next = .behind d.string none := by
  obtain ⟨start, stop, indent, text, brackets, string⟩ := d
  cases string with
  | none => exact .inr ⟨rfl, rfl, rfl⟩
  | some o =>
    by_cases hlast : last = some .escapedBreak
    · refine .inr ⟨by simp [Draft.broken?, hlast], ?_⟩
      simp [Mode.behind, hlast, Mode.lineEnd, Mode.next, findings, Token.isFinding]
    · cases htriple : o.quote.triple with
      | false =>
        have hmode : Mode.behind (some o) last = .string o := by simp [Mode.behind, hlast]
        refine .inl ⟨o, by simp [Draft.broken?, htriple, hlast], ?_⟩
        dsimp only
        rw [hmode, Mode.lineEnd, Mode.next, htriple]
        exact ⟨rfl, rfl⟩
      | true =>
        refine .inr ⟨by simp [Draft.broken?, htriple], ?_⟩
        simp [Mode.behind, hlast, Mode.lineEnd, Mode.next, findings, Token.isFinding, htriple]

/-- The findings at the end of a line are those of the text. -/
theorem found_endLine (d : Draft) (pos pos' : Position) (last : Option Piece) :
    (s.endLine d pos last).found =
      s.found ++ findings ((Mode.behind d.string last).lineEnd pos') := by
  have hbroken : (s.reportBroken (d.broken? last) pos).found =
      s.found ++ findings ((Mode.behind d.string last).lineEnd pos') := by
    rcases broken?_cases d last pos' with ⟨o, hsome, hend, -⟩ | ⟨hnone, hend, -⟩
    · rw [hsome, hend]
      exact found_emit _ _
    · rw [hnone, hend]
      exact (List.append_nil _).symm
  rw [endLine_eq]
  dsimp only
  split
  · exact ((found_emit _ (.line _)).trans (List.append_nil _)).trans hbroken
  · exact hbroken

theorem mode_endLine (d : Draft) (pos : Position) (last : Option Piece) :
    (s.endLine d pos last).mode = (Mode.behind d.string last).next := by
  have hstring : Mode.behind (d.breakLine last).string none = (Mode.behind d.string last).next := by
    unfold Draft.breakLine
    rcases broken?_cases d last pos with ⟨o, hsome, -, hnext⟩ | ⟨hnone, -, hnext⟩
    · rw [hsome, hnext]
      rfl
    · rw [hnone, hnext]
      rfl
  rw [endLine_eq]
  dsimp only
  split
  · rename_i hcomplete
    have hclosed : (d.breakLine last).string = none := by
      simp only [Draft.isComplete, Bool.and_eq_true, Option.isNone_iff_eq_none] at hcomplete
      exact hcomplete.1.1
    rw [← hstring, hclosed]
    rfl
  · exact hstring

/-- At the end of a physical line the logical line is finished, or goes on behind a blank. -/
theorem endLine_cases (d : Draft) (pos : Position) (last : Option Piece) :
    ∃ d' : Draft, d'.start = d.start ∧ d'.text = d.text ∧ d'.brackets = d.brackets ∧
      ((s.endLine d pos last).draft = none ∧ (s.endLine d pos last).lines = d'.finish :: s.lines ∨
        (s.endLine d pos last).draft = some { d' with text := ' ' :: d'.text } ∧
          (s.endLine d pos last).lines = s.lines) := by
  have hbreak : (d.breakLine last).start = d.start ∧ (d.breakLine last).text = d.text ∧
      (d.breakLine last).brackets = d.brackets := by
    unfold Draft.breakLine
    split <;> exact ⟨rfl, rfl, rfl⟩
  have hlines := s.lines_reportBroken (d.broken? last) pos
  refine ⟨d.breakLine last, hbreak.1, hbreak.2.1, hbreak.2.2, ?_⟩
  rw [endLine_eq]
  dsimp only
  split
  · exact .inl ⟨rfl, congrArg ((d.breakLine last).finish :: ·) hlines⟩
  · exact .inr ⟨rfl, hlines⟩

end State

theorem visibleOn_lineEnd (line : Nat) (mode : Mode) (pos : Position) :
    visibleOn line (mode.lineEnd pos) = [] := by
  cases mode with
  | string o => cases h : o.quote.triple <;> simp [visibleOn, Mode.lineEnd, h, Token.visible]
  | _ => simp [visibleOn, Mode.lineEnd, Token.visible]

/-! ## The text of logical lines -/

/-- The character indents. -/
def indents (c : Char) : Bool :=
  c == ' ' || c == '\t' || c == '\x0c'

/-- The rows are what is seen outside comments and strings on the lines from the given one on,
without the indentation of the first of them, and without backslashes that join lines. -/
def IsCodeFrom (ts : List Token) (line : Nat) (rows : List (List Char)) : Prop :=
  ∀ i row, rows[i]? = some row →
    ∃ front back, visibleOn (line + i) ts = front ++ row ++ back ∧
      (∀ c ∈ front, i = 0 ∧ indents c) ∧ (back = [] ∨ back = ['\\'])

namespace IsCodeFrom

variable {ts : List Token} {line : Nat} {rows : List (List Char)}

theorem nil : IsCodeFrom ts line [] := by
  intro i row h
  cases h

/-- Tokens on other lines change nothing. -/
theorem append (h : IsCodeFrom ts line rows) {ts' : List Token}
    (hts' : ∀ r < line + rows.length, visibleOn r ts' = []) : IsCodeFrom (ts ++ ts') line rows := by
  intro i row hrow
  obtain ⟨hi, -⟩ := List.getElem?_eq_some_iff.1 hrow
  rw [visibleOn_append, hts' _ (by omega), List.append_nil]
  exact h i row hrow

/-- One more line. -/
theorem snoc (h : IsCodeFrom ts line rows) {row front back : List Char}
    (hrow : visibleOn (line + rows.length) ts = front ++ row ++ back)
    (hfront : ∀ c ∈ front, rows = [] ∧ indents c) (hback : back = [] ∨ back = ['\\']) :
    IsCodeFrom ts line (rows ++ [row]) := by
  intro i row' hi
  rcases Nat.lt_trichotomy i rows.length with hlt | rfl | hgt
  · rw [List.getElem?_append_left hlt] at hi
    exact h i row' hi
  · rw [List.getElem?_concat_length, Option.some.injEq] at hi
    subst hi
    refine ⟨front, back, hrow, ?_, hback⟩
    intro c hc
    obtain ⟨rfl, hindents⟩ := hfront c hc
    exact ⟨rfl, hindents⟩
  · rw [List.getElem?_eq_none (by simp; omega)] at hi
    cases hi

end IsCodeFrom

theorem flatMap_blank_append (rows : List (List Char)) (row : List Char) :
    rows.flatMap (· ++ [' ']) ++ row = [' '].intercalate (rows ++ [row]) := by
  induction rows with
  | nil => simp
  | cons first rows ih =>
    have hne : rows ++ [row] ≠ [] := by simp
    rw [List.flatMap_cons, List.append_assoc, ih, List.cons_append,
      List.intercalate_cons_of_ne_nil hne, List.append_assoc]

/-- The finished logical lines have their text from lines above the given one. -/
def HasLines (ts : List Token) (row : Nat) (s : State) : Prop :=
  ∀ l ∈ s.lines, ∃ rows, l.range.start.line + rows.length ≤ row ∧ l.text = [' '].intercalate rows ∧
    IsCodeFrom ts l.range.start.line rows

theorem HasLines.append {ts : List Token} {row : Nat} {s : State} (h : HasLines ts row s)
    {ts' : List Token} (hts' : ∀ r < row, visibleOn r ts' = []) : HasLines (ts ++ ts') row s := by
  intro l hl
  obtain ⟨rows, hle, htext, hcode⟩ := h l hl
  exact ⟨rows, hle, htext, hcode.append fun r hr => hts' r (by omega)⟩

/-- The reader is between two lines and agrees with the tokens of the lines before. -/
structure Agrees (ts : List Token) (row : Nat) (s : State) : Prop where
  found : s.found = findings ts
  ahead : ∀ r, row ≤ r → visibleOn r ts = []
  lines : HasLines ts row s
  draft : ∀ d, s.draft = some d → ∃ rows, d.start.line + rows.length = row ∧
    d.text.reverse = rows.flatMap (· ++ [' ']) ∧ IsCodeFrom ts d.start.line rows

/-- The reader is about to read code of a logical line at a place, and agrees with the tokens before
it, of which only an indentation can be on this line. -/
structure AgreesAt (ts : List Token) (pos : Position) (s : State) (d : Draft) : Prop where
  found : s.found = findings ts
  ahead : ∀ r, pos.line < r → visibleOn r ts = []
  lines : HasLines ts pos.line s
  draft : ∃ rows, d.start.line + rows.length = pos.line ∧
    d.text.reverse = rows.flatMap (· ++ [' ']) ∧ IsCodeFrom ts d.start.line rows ∧
      ∀ c ∈ visibleOn pos.line ts, rows = [] ∧ indents c

/-- The reader has read the code of a line, and agrees with the tokens up to the end of it. -/
structure AgreesBehind (ts : List Token) (line : Nat) (s : State) (d : Draft) : Prop where
  found : s.found = findings ts
  ahead : ∀ r, line < r → visibleOn r ts = []
  lines : HasLines ts line s
  draft : ∃ rows row, d.start.line + rows.length = line ∧
    d.text.reverse = rows.flatMap (· ++ [' ']) ++ row ∧
      IsCodeFrom ts d.start.line (rows ++ [row])

/-- Pieces add their tokens, and what they leave in the text is what is seen of them. -/
theorem AgreesAt.readAll {ts : List Token} {pos : Position} {s : State} {d : Draft}
    (h : AgreesAt ts pos s d) (line : List Char) :
    AgreesBehind (ts ++ pieceTokens pos (pieces d.mode line)) pos.line
      { s with events := (d.readAll pos s.events (pieces d.mode line)).2.2 }
      (d.readAll pos s.events (pieces d.mode line)).1 := by
  have hfound := d.findings_readAll pos s.events (pieces d.mode line)
  have hlines := d.filterMap_line?_readAll pos s.events (pieces d.mode line)
  have hon := fun r => visibleOn_pieceTokens r pos (pieces d.mode line)
  have hbefore : ∀ r < pos.line, visibleOn r (pieceTokens pos (pieces d.mode line)) = [] := by
    intro r hr
    rw [hon, if_neg (by omega)]
  obtain ⟨back, hback, hvisible⟩ := exists_visible_pieces d.mode line
  obtain ⟨rows, hlen, hrows, hcode, hfront⟩ := h.draft
  refine ⟨?_, ?_, ?_, rows, (pieces d.mode line).flatMap Piece.trace, ?_, ?_, ?_⟩
  · rw [findings_append, ← h.found]
    exact hfound
  · intro r hr
    rw [visibleOn_append, h.ahead r hr, hon, if_neg (by omega), List.append_nil]
  · intro l hl
    rw [State.lines, hlines] at hl
    exact h.lines.append hbefore l hl
  · rw [Draft.start_readAll, hlen]
  · rw [Draft.text_readAll, hrows]
  · rw [Draft.start_readAll]
    refine (hcode.append (hlen ▸ hbefore)).snoc ?_ hfront hback
    rw [hlen, visibleOn_append, hon, if_pos rfl, hvisible, List.append_assoc]

/-- At the end of the line its text is joined to that of the lines before. -/
theorem AgreesBehind.endLine {ts : List Token} {line : Nat} {s : State} {d : Draft}
    (h : AgreesBehind ts line s d) (pos stop : Position) (last : Option Piece) :
    Agrees (ts ++ (Mode.behind d.string last).lineEnd stop) (line + 1) (s.endLine d pos last) := by
  have hon : ∀ r, visibleOn r ((Mode.behind d.string last).lineEnd stop) = [] :=
    fun r => visibleOn_lineEnd r _ stop
  have hold := h.lines.append fun r _ => hon r
  obtain ⟨rows, row, hlen, htext, hcode⟩ := h.draft
  have hcode := hcode.append fun r _ => hon r
  have hlen : d.start.line + (rows ++ [row]).length = line + 1 := by
    rw [List.length_append, List.length_singleton, ← hlen, Nat.add_assoc]
  obtain ⟨d', hstart, htext', -, hend⟩ := s.endLine_cases d pos last
  rw [← hstart] at hlen hcode
  rw [← htext'] at htext
  refine ⟨?_, ?_, ?_, ?_⟩
  · rw [State.found_endLine _ d pos stop, findings_append, h.found]
  · intro r hr
    rw [visibleOn_append, h.ahead r hr, hon, List.append_nil]
  · intro l hl
    have hl : l = d'.finish ∨ l ∈ s.lines := by
      rcases hend with ⟨-, hlines⟩ | ⟨-, hlines⟩ <;> rw [hlines] at hl
      · exact List.mem_cons.1 hl
      · exact .inr hl
    rcases hl with rfl | hl
    · exact ⟨rows ++ [row], Nat.le_of_eq hlen, htext.trans (flatMap_blank_append rows row), hcode⟩
    · obtain ⟨rows, hle, hl⟩ := hold l hl
      exact ⟨rows, Nat.le_succ_of_le hle, hl⟩
  · intro d₂ hd₂
    rcases hend with ⟨hdraft, -⟩ | ⟨hdraft, -⟩ <;> rw [hdraft] at hd₂
    · cases hd₂
    · cases hd₂
      refine ⟨rows ++ [row], hlen, ?_, hcode⟩
      simp [htext]

/-- The tokens of code that begins at a place, up to the end of its line. -/
def Draft.codeTokens (d : Draft) (pos : Position) (line : List Char) : List Token :=
  pieceTokens pos (pieces d.mode line) ++
    (Mode.behind (d.readAll pos [] (pieces d.mode line)).1.string
      (pieces d.mode line).getLast?).lineEnd (pos.right (Text.width16 line))

theorem tokens_code (s : State) (d : Draft) (pos : Position) {line : List Char}
    (hline : '\n' ∉ line) (text : List Char) :
    tokens (.behind d.string none) pos (line ++ '\n' :: text) =
      d.codeTokens pos line ++ tokens (s.readCode d pos line).mode ⟨pos.line + 1, 0⟩ text := by
  rw [tokens_line d pos s.events hline _ (by simp), tokens_newline, State.readCode_eq,
    State.mode_endLine, ← List.append_assoc, Draft.codeTokens, d.readAll_eq pos s.events]
  rfl

/-- Reading the code of a line keeps the reader and the tokens in agreement. -/
theorem AgreesAt.readCode {ts : List Token} {pos : Position} {s : State} {d : Draft}
    (h : AgreesAt ts pos s d) (line : List Char) :
    Agrees (ts ++ d.codeTokens pos line) (pos.line + 1) (s.readCode d pos line) := by
  have hagrees := (h.readAll line).endLine (d.readAll pos s.events (pieces d.mode line)).2.1
    (pos.right (Text.width16 line)) (pieces d.mode line).getLast?
  rw [List.append_assoc] at hagrees
  rw [Draft.codeTokens, State.readCode_eq, d.readAll_eq pos s.events] at *
  exact hagrees

/-! ## Lines -/

namespace Indent

theorem indents_of_extend? {w w' : Indent} {c : Char} (h : w.extend? c = some w') : indents c := by
  unfold extend? at h
  unfold indents
  by_cases hspace : c = ' '
  · simp [hspace]
  by_cases htab : c = '\t'
  · simp [htab]
  by_cases hfeed : c = '\x0c'
  · simp [hfeed]
  · simp [hspace, htab, hfeed] at h

theorem measureFrom_append (w : Indent) (n : Nat) (line : List Char) :
    ∃ front, line = front ++ (measureFrom w n line).2.2 ∧
      (measureFrom w n line).2.1 = n + front.length ∧ ∀ c ∈ front, indents c := by
  induction line generalizing w n with
  | nil => exact ⟨[], rfl, rfl, by simp⟩
  | cons c cs ih =>
    rw [measureFrom]
    cases hext : w.extend? c with
    | none => exact ⟨[], rfl, rfl, by simp⟩
    | some w' =>
      obtain ⟨front, hline, hn, hfront⟩ := ih w' (n + 1)
      refine ⟨c :: front, congrArg (c :: ·) hline, ?_, ?_⟩
      · simp only [hn, List.length_cons]
        omega
      · exact List.forall_mem_cons.2 ⟨indents_of_extend? hext, hfront⟩

/-- A line is its indentation, of as many columns as characters, and the rest. -/
theorem measure_append (line : List Char) :
    ∃ front, line = front ++ (measure line).2.2 ∧ (measure line).2.1 = front.length ∧
      ∀ c ∈ front, indents c := by
  obtain ⟨front, hline, hn, hfront⟩ := measureFrom_append ground 0 line
  exact ⟨front, hline, hn.trans (Nat.zero_add _), hfront⟩

end Indent

/-- The tokens of an indentation. -/
def indentTokens (row : Nat) (column : Nat) : List Char → List Token
  | [] => []
  | c :: cs => ⟨⟨row, column⟩, .code c⟩ :: indentTokens row (column + 1) cs

theorem tokens_indent (row column : Nat) {front : List Char} (hfront : ∀ c ∈ front, indents c)
    (text : List Char) :
    tokens .code ⟨row, column⟩ (front ++ text) =
      indentTokens row column front ++ tokens .code ⟨row, column + front.length⟩ text := by
  induction front generalizing column with
  | nil => rfl
  | cons c front ih =>
    obtain ⟨hc, hfront⟩ := List.forall_mem_cons.1 hfront
    have hcode : c ≠ '#' ∧ ¬(c = '"' ∨ c = '\'') ∧ c ≠ '\n' ∧
        past ⟨row, column⟩ c = ⟨row, column + 1⟩ := by
      simp only [indents, Bool.or_eq_true, beq_iff_eq] at hc
      rcases hc with (rfl | rfl) | rfl <;> exact ⟨by decide, by decide, by decide, rfl⟩
    obtain ⟨hhash, hquote, hnewline, hpast⟩ := hcode
    have hcolumn : column + 1 + front.length = column + (c :: front).length := by
      rw [List.length_cons]
      omega
    rw [List.cons_append, tokens, if_neg hhash, if_neg hquote, if_neg hnewline, hpast,
      ih (column + 1) hfront, hcolumn]
    rfl

theorem findings_indentTokens (row column : Nat) (front : List Char) :
    findings (indentTokens row column front) = [] := by
  induction front generalizing column with
  | nil => rfl
  | cons c front ih => exact ih (column + 1)

theorem visibleOn_indentTokens (line row column : Nat) (front : List Char) :
    visibleOn line (indentTokens row column front) = if row = line then front else [] := by
  induction front generalizing column with
  | nil => simp [indentTokens, visibleOn]
  | cons c front ih =>
    have hcons := visibleOn_append line [⟨⟨row, column⟩, .code c⟩]
      (indentTokens row (column + 1) front)
    rw [ih] at hcons
    refine hcons.trans ?_
    by_cases hrow : row = line <;> simp [visibleOn, Token.visible, hrow]

/-- What is behind the indentation of a line that has no code: a comment or nothing. -/
theorem tokens_of_not_isCodeLine (row : Nat) {line : List Char} (hline : '\n' ∉ line)
    (hcode : isCodeLine line = false) :
    ∃ ts, (∀ r, visibleOn r ts = []) ∧
      findings ts = (comment? row line).toList.filterMap Event.token? ∧
        ∀ text, tokens .code ⟨row, (Indent.measure line).2.1⟩
          ((Indent.measure line).2.2 ++ '\n' :: text) = ts ++ tokens .code ⟨row + 1, 0⟩ text := by
  obtain ⟨front, hfront, -⟩ := Indent.measure_append line
  unfold isCodeLine at hcode
  unfold comment?
  generalize (Indent.measure line).2.1 = column
  generalize (Indent.measure line).2.2 = rest at *
  cases rest with
  | nil =>
    refine ⟨[⟨⟨row, column⟩, .lineEnd⟩], ?_, rfl, ?_⟩
    · simp [visibleOn, Token.visible]
    · intro text
      exact tokens_newline .code _ text
  | cons c cs =>
    have hc : c = '#' := by simpa using hcode
    have hcs : '\n' ∉ cs := by
      intro h
      exact hline (hfront ▸ List.mem_append_right _ (.tail _ h))
    refine ⟨[⟨⟨row, column⟩, .comment (c :: cs)⟩,
      ⟨(⟨row, column⟩ : Position).right (Text.width16 (c :: cs)), .lineEnd⟩], ?_, rfl, ?_⟩
    · simp [visibleOn, Token.visible]
    · intro text
      have htail : ∀ d ∈ ('\n' :: text).head?, d = '\n' := by simp
      obtain ⟨htake, hdrop⟩ := takeWhile_append_of_newline hcs htail
      rw [List.cons_append, tokens, if_pos hc, htake, hdrop]
      exact congrArg (_ :: ·) (tokens_newline .code _ text)

/-- What a line is to the reader and to the tokens: code of the logical line that is open, or else
an indentation, whose characters are code to the tokens but not to the reader, and behind it
nothing, a comment, or code that begins a logical line. -/
inductive State.Meets (s : State) (row : Nat) (line : List Char) : List Token → Prop
  | code {d : Draft} : s.draft = some d → s.readLine row line = s.readCode d ⟨row, 0⟩ line →
    s.Meets row line (d.codeTokens ⟨row, 0⟩ line)
  | blank {front : List Char} {us : List Token} : s.draft = none → (∀ c ∈ front, indents c) →
    s.readLine row line = { s with events := (comment? row line).toList ++ s.events } →
    (∀ r, visibleOn r us = []) → findings us = (comment? row line).toList.filterMap Event.token? →
      s.Meets row line (indentTokens row 0 front ++ us)
  | begin {front rest : List Char} {w : Indent} : s.draft = none → (∀ c ∈ front, indents c) →
    line = front ++ rest →
    s.readLine row line = (s.indent w ⟨⟨row, 0⟩, ⟨row, front.length⟩⟩).readCode
      (.begin ⟨row, front.length⟩ w.column) ⟨row, front.length⟩ rest →
      s.Meets row line (indentTokens row 0 front ++
        (Draft.begin ⟨row, front.length⟩ w.column).codeTokens ⟨row, front.length⟩ rest)

/-- The tokens of a line are those that the reader meets in it. -/
theorem State.tokens_readLine (s : State) (row : Nat) {line : List Char} (hline : '\n' ∉ line) :
    ∃ ts, s.Meets row line ts ∧ ∀ text, tokens s.mode ⟨row, 0⟩ (line ++ '\n' :: text) =
      ts ++ tokens (s.readLine row line).mode ⟨row + 1, 0⟩ text := by
  have hmode : s.draft = none → s.mode = .code := by
    intro hnone
    rw [State.mode, hnone]
    rfl
  obtain ⟨front, hfront, hcolumn, hindents⟩ := Indent.measure_append line
  have hindent := tokens_indent row 0 hindents
  rw [Nat.zero_add, ← hcolumn] at hindent
  rcases s.readLine_cases row line with ⟨d, hd, hread⟩ | ⟨hnone, ⟨hcode, hread⟩ | ⟨hcode, hread⟩⟩
  · have hmode : s.mode = .behind d.string none := by
      rw [State.mode, hd]
      rfl
    refine ⟨_, .code hd hread, fun text => ?_⟩
    rw [hread, hmode]
    exact tokens_code s d ⟨row, 0⟩ hline text
  · obtain ⟨us, hus, hfound, htokens⟩ := tokens_of_not_isCodeLine row hline hcode
    refine ⟨_, .blank hnone hindents hread hus hfound, fun text => ?_⟩
    have hmode' : (s.readLine row line).mode = .code := by
      rw [hread]
      exact hmode hnone
    conv_lhs => rw [hfront]
    rw [hmode hnone, hmode', List.append_assoc, hindent, List.append_assoc, htokens]
  · have hrest : '\n' ∉ (Indent.measure line).2.2 := by
      intro hmem
      exact hline (hfront ▸ List.mem_append_right _ hmem)
    rw [hcolumn] at hread hindent
    refine ⟨_, .begin hnone hindents hfront hread, fun text => ?_⟩
    conv_lhs => rw [hfront]
    rw [hmode hnone, List.append_assoc, hindent, hread, List.append_assoc]
    exact congrArg _ (tokens_code _ (.begin _ _) _ hrest text)

/-- What the reading of each line of a text keeps, together with the tokens of the lines read so far,
holds at the end of the text together with all of its tokens. -/
theorem State.tokenize_readLines {motive : List Token → Nat → State → Prop}
    {ls : List (List Char)} (hls : ∀ line ∈ ls, '\n' ∉ line)
    (step : ∀ ts row s line us, ls[row]? = some line → s.Meets row line us → motive ts row s →
      motive (ts ++ us) (row + 1) (s.readLine row line))
    (h : motive [] 0 .initial) :
    ∃ ts, motive ts ls.length (State.initial.readLines 0 ls) ∧
      tokenize (Text.unlines ls) = ts ++ (State.initial.readLines 0 ls).mode.textEnd := by
  have hrun : ∃ ts, motive ts ls.length (State.initial.readLines 0 ls) ∧
      tokenize (Text.unlines ls) = ts ++ tokens (State.initial.readLines 0 ls).mode
        ⟨ls.length, 0⟩ (Text.unlines (ls.drop ls.length)) := by
    refine State.readLines_induction (motive := fun row s => ∃ ts, motive ts row s ∧
      tokenize (Text.unlines ls) = ts ++ tokens s.mode ⟨row, 0⟩ (Text.unlines (ls.drop row)))
      ?_ ⟨[], h, rfl⟩
    rintro row s line hline ⟨ts, hts, htokens⟩
    obtain ⟨hrow, rfl⟩ := List.getElem?_eq_some_iff.1 hline
    obtain ⟨us, hus, hcut⟩ := s.tokens_readLine row (hls _ (List.getElem_mem hrow))
    refine ⟨ts ++ us, step ts row s _ us hline hus hts, ?_⟩
    rw [htokens, List.drop_eq_getElem_cons hrow, Text.unlines_cons, hcut, List.append_assoc]
  obtain ⟨ts, hts, htokens⟩ := hrun
  rw [List.drop_length] at htokens
  exact ⟨ts, hts, htokens.trans (congrArg (ts ++ ·) (tokens_nil _ _))⟩

namespace Agrees

variable {ts : List Token} {row : Nat} {s : State} (h : Agrees ts row s) {line : List Char}

include h

/-- The logical line that is open goes on. -/
theorem agreesAt {d : Draft} (hd : s.draft = some d) : AgreesAt ts ⟨row, 0⟩ s d := by
  obtain ⟨rows, hlen, htext, hrows⟩ := h.draft d hd
  refine ⟨h.found, fun r hr => h.ahead r (Nat.le_of_lt hr), h.lines, rows, hlen, htext, hrows, ?_⟩
  simp [h.ahead row (Nat.le_refl _)]

/-- A logical line begins behind an indentation. -/
theorem agreesAt_begin {front : List Char} (hfront : ∀ c ∈ front, indents c) (w : Indent)
    (range : Range) (column : Nat) :
    AgreesAt (ts ++ indentTokens row 0 front) ⟨row, column⟩ (s.indent w range)
      (.begin ⟨row, column⟩ w.column) := by
  have hvisible := fun r => visibleOn_indentTokens r row 0 front
  refine ⟨?_, ?_, ?_, [], Nat.add_zero row, rfl, .nil, ?_⟩
  · rw [State.found_indent, findings_append, findings_indentTokens, List.append_nil, h.found]
  · intro r hr
    dsimp only at hr
    rw [visibleOn_append, h.ahead r (Nat.le_of_lt hr), hvisible, if_neg (by omega),
      List.append_nil]
  · have happend := h.lines.append fun r hr => (hvisible r).trans (if_neg (by omega))
    unfold HasLines at happend ⊢
    rw [State.lines_indent]
    exact happend
  · intro c hc
    rw [visibleOn_append, h.ahead row (Nat.le_refl _), hvisible, if_pos rfl, List.nil_append] at hc
    exact ⟨rfl, hfront c hc⟩

/-- A line without code, where no logical line is open: its comment is all that is met. -/
theorem readBlank (hnone : s.draft = none) {us : List Token}
    (hvisible : ∀ r, row ≠ r → visibleOn r us = [])
    (hfound : findings us = (comment? row line).toList.filterMap Event.token?) :
    Agrees (ts ++ us) (row + 1) { s with events := (comment? row line).toList ++ s.events } := by
  refine ⟨?_, ?_, ?_, ?_⟩
  · have hreverse : (comment? row line).toList.reverse = (comment? row line).toList := by
      cases comment? row line <;> rfl
    rw [State.found, List.reverse_append, List.filterMap_append, hreverse, findings_append,
      hfound, ← h.found, State.found]
  · intro r hr
    rw [visibleOn_append, h.ahead r (by omega), hvisible r (by omega), List.append_nil]
  · intro l hl
    rw [State.lines_comment?] at hl
    obtain ⟨rows, hle, hl⟩ := h.lines.append (fun r hr => hvisible r (by omega)) l hl
    exact ⟨rows, by omega, hl⟩
  · intro d hd
    exact absurd (hd.symm.trans hnone) (by simp)

/-- Reading a line keeps the reader and the tokens in agreement. -/
theorem readLine {us : List Token} (hline : s.Meets row line us) :
    Agrees (ts ++ us) (row + 1) (s.readLine row line) := by
  cases hline with
  | code hd hread =>
    rw [hread]
    exact (h.agreesAt hd).readCode line
  | @blank front us hnone _ hread hvisible hfound =>
    rw [hread]
    refine h.readBlank hnone ?_ ?_
    · intro r hr
      rw [visibleOn_append, visibleOn_indentTokens, if_neg hr, hvisible, List.append_nil]
    · rw [findings_append, findings_indentTokens, List.nil_append, hfound]
  | @begin front rest w _ hindents _ hread =>
    rw [hread, ← List.append_assoc]
    exact (h.agreesAt_begin hindents w _ front.length).readCode rest

end Agrees

/-! ## The end of the text -/

namespace State

variable (s : State)

theorem found_reportUnclosed (string : Option OpenString) (brackets : List OpenBracket) :
    (s.reportUnclosed string brackets).found =
      s.found ++ (Mode.behind string none).textEnd := by
  induction brackets with
  | nil =>
    cases string with
    | none => exact (List.append_nil _).symm
    | some o =>
      cases htriple : o.quote.triple <;>
        simp [reportUnclosed, found_emit, Mode.behind, Mode.textEnd, htriple, Event.token?,
          Range.wide]
  | cons b brackets ih => exact ((found_emit _ _).trans (List.append_nil _)).trans ih

/-- At the end of the text the open string is found. -/
theorem token?_finish :
    s.finish.filterMap Event.token? = s.found ++ s.mode.textEnd := by
  have hopen : s.abandonOpen.found = s.found ++ s.mode.textEnd := by
    unfold abandonOpen mode
    cases s.draft with
    | none => exact (List.append_nil _).symm
    | some d =>
      exact ((found_emit _ (.line _)).trans (List.append_nil _)).trans
        (s.found_reportUnclosed d.string d.brackets)
  rw [← hopen, ← found_reportMissing]
  rfl

/-- The logical line that is open when the text ends is finished as it is. -/
theorem line?_finish :
    s.finish.filterMap Event.line? = (s.draft.toList.map Draft.finish ++ s.lines).reverse := by
  have habandon : s.abandonOpen.lines = s.draft.toList.map Draft.finish ++ s.lines := by
    unfold abandonOpen
    cases hd : s.draft with
    | none => rfl
    | some d => exact congrArg (d.finish :: ·) (s.lines_reportUnclosed d.string d.brackets)
  rw [finish_eq, List.filterMap_reverse, ← habandon, ← lines_reportMissing]
  rfl

theorem mem_finish {l : LogicalLine} (h : .line l ∈ s.finish) :
    l ∈ s.lines ∨ ∃ d, s.draft = some d ∧ l = d.finish := by
  have hmem : l ∈ s.finish.filterMap Event.line? := List.mem_filterMap.2 ⟨_, h, rfl⟩
  rw [line?_finish, List.mem_reverse] at hmem
  rcases List.mem_append.1 hmem with hmem | hmem
  · obtain ⟨d, hd, rfl⟩ := List.mem_map.1 hmem
    exact .inr ⟨d, Option.mem_toList.1 hd, rfl⟩
  · exact .inl hmem

end State

theorem visibleOn_textEnd (line : Nat) (mode : Mode) : visibleOn line mode.textEnd = [] := by
  cases mode <;> simp [visibleOn, Mode.textEnd, Token.visible]

theorem findings_textEnd (mode : Mode) : findings mode.textEnd = mode.textEnd := by
  cases mode <;> rfl

/-- The logical line is the code of the lines on which it stands, a blank for each end of a line in
it. One that is still open at the end of the text also has the line below the last. -/
def IsCodeOf (ts : List Token) (l : LogicalLine) : Prop :=
  ∃ rows, l.text = [' '].intercalate rows ∧ IsCodeFrom ts l.range.start.line rows

theorem Agrees.finish {ts : List Token} {row : Nat} {s : State} (h : Agrees ts row s) :
    s.finish.filterMap Event.token? = findings (ts ++ s.mode.textEnd) ∧
      ∀ l, .line l ∈ s.finish → IsCodeOf (ts ++ s.mode.textEnd) l := by
  have hend : ∀ r < row, visibleOn r s.mode.textEnd = [] := fun r _ => visibleOn_textEnd r _
  refine ⟨?_, ?_⟩
  · rw [s.token?_finish, findings_append, findings_textEnd, h.found]
  · intro l hl
    rcases s.mem_finish hl with hl | ⟨d, hd, rfl⟩
    · obtain ⟨rows, -, htext, hcode⟩ := h.lines.append hend l hl
      exact ⟨rows, htext, hcode⟩
    · obtain ⟨rows, hlen, htext, hcode⟩ := h.draft d hd
      refine ⟨rows ++ [[]], ?_, ?_⟩
      · rw [← flatMap_blank_append, List.append_nil, ← htext]
        rfl
      · have hcode' : IsCodeFrom (ts ++ s.mode.textEnd) d.start.line rows :=
          hcode.append (hlen ▸ hend)
        have hbelow : visibleOn (d.start.line + rows.length) (ts ++ s.mode.textEnd) =
            [] ++ [] ++ [] := by
          rw [hlen, visibleOn_append, visibleOn_textEnd, h.ahead row (Nat.le_refl _)]
          rfl
        exact hcode'.snoc hbelow (by simp) (.inl rfl)

theorem agrees_initial : Agrees [] 0 .initial := by
  refine ⟨rfl, fun _ _ => rfl, ?_, ?_⟩
  · intro l hl
    cases hl
  · intro d hd
    cases hd

/-- The reader agrees with the tokens of the lines, each with its line feed. -/
theorem scan_agrees {ls : List (List Char)} (hls : ∀ line ∈ ls, '\n' ∉ line) :
    (scan ls).filterMap Event.token? = findings (tokenize (Text.unlines ls)) ∧
      ∀ l, .line l ∈ scan ls → IsCodeOf (tokenize (Text.unlines ls)) l := by
  obtain ⟨ts, hagrees, htokens⟩ :=
    State.tokenize_readLines hls (fun _ _ _ _ _ _ hline h => h.readLine hline) agrees_initial
  rw [htokens]
  exact hagrees.finish

/-- What is picked out of the tokens of a text, neither characters in strings nor ends of lines, is that
of its lines. -/
theorem filterMap_tokenize {α : Type} {f : Token → Option α}
    (hend : ∀ pos, f ⟨pos, .lineEnd⟩ = none) (hbody : ∀ pos c, f ⟨pos, .body c⟩ = none)
    (text : List Char) :
    (tokenize (Text.joinBreaks text)).filterMap f =
      (tokenize (Text.unlines (Text.lines text))).filterMap f := by
  rw [List.filterMap_eq_flatMap_toList, List.filterMap_eq_flatMap_toList]
  refine flatMap_tokenize ?_ ?_ (Text.spells_lines text)
    fun line hline => Text.newline_not_mem_of_mem_lines hline
  · exact fun pos => congrArg Option.toList (hend pos)
  · exact fun pos c => congrArg Option.toList (hbody pos c)

/-- The reader agrees with the tokens of the text, whose carriage returns before line feeds are left
out. -/
theorem scan_lines_agrees (text : List Char) :
    (scan (Text.lines text)).filterMap Event.token? =
        findings (tokenize (Text.joinBreaks text)) ∧
      ∀ l, .line l ∈ scan (Text.lines text) → IsCodeOf (tokenize (Text.joinBreaks text)) l := by
  have hls : ∀ line ∈ Text.lines text, '\n' ∉ line :=
    fun line hline => Text.newline_not_mem_of_mem_lines hline
  have hspells := Text.spells_lines text
  have hfindings : findings (tokenize (Text.joinBreaks text)) =
      findings (tokenize (Text.unlines (Text.lines text))) := by
    rw [findings_eq_flatMap, findings_eq_flatMap]
    exact flatMap_tokenize (fun _ => rfl) (fun _ _ => rfl) hspells hls
  have hvisible : ∀ line, visibleOn line (tokenize (Text.joinBreaks text)) =
      visibleOn line (tokenize (Text.unlines (Text.lines text))) := by
    intro line
    exact flatMap_tokenize (by simp [Token.visible]) (by simp [Token.visible]) hspells hls
  obtain ⟨hfound, hcode⟩ := scan_agrees hls
  refine ⟨hfound.trans hfindings.symm, ?_⟩
  intro l hl
  obtain ⟨rows, htext, hrows⟩ := hcode l hl
  refine ⟨rows, htext, ?_⟩
  intro i row hrow
  rw [hvisible]
  exact hrows i row hrow

end Reparse.Layout
