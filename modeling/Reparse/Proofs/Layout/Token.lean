import Reparse.Proofs.Layout.Reader
import Reparse.Proofs.Lines

/-!
A text read from its beginning to its end, without regard to lines. Outside strings a number sign
begins a comment and a quote begins a string; inside a string a backslash takes the next character
with it, whatever it is. The tokens say of every character what it belongs to. They can be cut at
the ends of lines: the tokens of a line are those of its pieces, and between two lines it is enough
to know which string is open.
-/

namespace Reparse.Layout

/-- What a stretch of a text is. -/
inductive Lexeme where
  /-- A character outside strings and comments. -/
  | code (c : Char)
  /-- A line feed outside strings. -/
  | lineEnd
  | comment (text : List Char)
  | opening (q : Quote)
  | closing (q : Quote)
  /-- A character inside a string, a line feed included. -/
  | body (c : Char)
  /-- The end of a string that is not closed. -/
  | unterminated (triple : Bool)
deriving DecidableEq, Repr

/-- A lexeme and its place. The end of a string that is not closed has the place where the string
begins. -/
structure Token where
  place : Position
  lexeme : Lexeme
deriving DecidableEq, Repr

/-- Where a text is read on. -/
inductive Mode where
  | code
  | string (o : OpenString)
  /-- Right behind a backslash in a string. -/
  | escaped (o : OpenString)
deriving DecidableEq, Repr

/-- The place behind a character. -/
def past (pos : Position) (c : Char) : Position :=
  if c = '\n' then ⟨pos.line + 1, 0⟩ else pos.right (Text.units16 c)

/-- The tokens of a text that begins at a place. -/
def tokens (mode : Mode) (pos : Position) (text : List Char) : List Token :=
  match text with
  | [] =>
    match mode with
    | .code => []
    | .string o | .escaped o => [⟨o.start, .unterminated o.quote.triple⟩]
  | c :: cs =>
    match mode with
    | .code =>
      if c = '#' then
        let comment := c :: cs.takeWhile (· != '\n')
        ⟨pos, .comment comment⟩ ::
          tokens .code (pos.right (Text.width16 comment)) (cs.dropWhile (· != '\n'))
      else if c = '"' ∨ c = '\'' then
        let q : Quote := ⟨c, tripled c cs⟩
        ⟨pos, .opening q⟩ ::
          tokens (.string ⟨q, pos⟩) (pos.right (Text.width16 q.chars)) (cs.drop (q.width - 1))
      else if c = '\n' then ⟨pos, .lineEnd⟩ :: tokens .code (past pos c) cs
      else ⟨pos, .code c⟩ :: tokens .code (past pos c) cs
    | .string o =>
      if c = '\\' then ⟨pos, .body c⟩ :: tokens (.escaped o) (past pos c) cs
      else if c = '\n' then
        if o.quote.triple then ⟨pos, .body c⟩ :: tokens (.string o) (past pos c) cs
        else ⟨o.start, .unterminated false⟩ :: ⟨pos, .lineEnd⟩ :: tokens .code (past pos c) cs
      else if c = o.quote.mark ∧ (o.quote.triple → tripled c cs) then
        ⟨pos, .closing o.quote⟩ ::
          tokens .code (pos.right (Text.width16 o.quote.chars)) (cs.drop (o.quote.width - 1))
      else ⟨pos, .body c⟩ :: tokens (.string o) (past pos c) cs
    | .escaped o => ⟨pos, .body c⟩ :: tokens (.string o) (past pos c) cs
termination_by text.length
decreasing_by
  all_goals simp only [List.length_cons, List.length_drop]
  · exact Nat.lt_succ_of_le (List.dropWhile_sublist _).length_le
  all_goals omega

/-- The tokens of a text. -/
def tokenize (text : List Char) : List Token :=
  tokens .code ⟨0, 0⟩ text

/-! ## Tokens of pieces -/

/-- The piece is the last one of its line, whatever is written behind it. -/
def Piece.isLast : Piece → Bool
  | comment _ | escapedBreak | continuation => true
  | _ => false

/-- The tokens of a piece that stands at a place. -/
def Piece.tokens (pos : Position) : Piece → List Token
  | code c => [⟨pos, .code c⟩]
  | opening q => [⟨pos, .opening q⟩]
  | closing q => [⟨pos, .closing q⟩]
  | body c => [⟨pos, .body c⟩]
  | escape c => [⟨pos, .body '\\'⟩, ⟨pos.right 1, .body c⟩]
  | escapedBreak => [⟨pos, .body '\\'⟩]
  | continuation => [⟨pos, .code '\\'⟩]
  | comment text => [⟨pos, .comment text⟩]

/-- The tokens of pieces, the first of which stands at a place. -/
def pieceTokens (pos : Position) : List Piece → List Token
  | [] => []
  | p :: ps => p.tokens pos ++ pieceTokens (p.next pos) ps

/-- The string that is open behind a piece. -/
def Piece.openString (pos : Position) (string : Option OpenString) : Piece → Option OpenString
  | opening q => some ⟨q, pos⟩
  | closing _ => none
  | _ => string

theorem Draft.string_read (d : Draft) (pos : Position) (p : Piece) :
    (d.read pos p).string = p.openString pos d.string := by
  have hreach : (d.reach pos p).string = d.string := by
    unfold reach
    split <;> rfl
  cases p with
  | opening q => rfl
  | closing q => rfl
  | comment text => rfl
  | _ => exact hreach

/-- Where a text is read on behind a piece, given the string that is open there. -/
def Mode.behind (string : Option OpenString) (last : Option Piece) : Mode :=
  match string with
  | none => .code
  | some o => if last = some .escapedBreak then .escaped o else .string o

theorem Mode.behind_of_isLast_eq_false (string : Option OpenString) {p : Piece}
    (h : p.isLast = false) : Mode.behind string (some p) = Mode.behind string none := by
  unfold behind
  cases string with
  | none => rfl
  | some o =>
    cases p with
    | escapedBreak => cases h
    | _ => rfl

theorem Mode.behind_getLast?_cons (string : Option OpenString) {p : Piece} (h : p.isLast = false)
    (ps : List Piece) : Mode.behind string (p :: ps).getLast? = Mode.behind string ps.getLast? := by
  cases ps with
  | nil => exact behind_of_isLast_eq_false string h
  | cons q ps => rw [List.getLast?_cons_cons]

theorem Piece.next_of_isLast_eq_false (pos : Position) {p : Piece} (h : p.isLast = false) :
    p.next pos = pos.right (Text.width16 p.chars) := by
  cases p with
  | escapedBreak => cases h
  | continuation => cases h
  | comment text => cases h
  | _ => rfl

/-- Nothing of the line is left behind a piece that is its last one. -/
theorem Piece.drop_eq_nil_of_isLast {mode : Option Quote} {c : Char} {cs : List Char}
    (h : (first mode c cs).isLast = true) :
    cs.drop ((first mode c cs).chars.length - 1) = [] := by
  cases mode with
  | none =>
    revert h
    simp only [first, firstOutside]
    split
    · simp [chars]
    split
    · rename_i hc
      simp [List.isEmpty_iff.1 hc.2]
    split <;> simp [isLast]
  | some q =>
    revert h
    simp only [first, firstInside]
    split
    · cases cs <;> simp [isLast]
    split <;> simp [isLast]

/-- A character that is another one cannot complete three of a kind. -/
theorem tripled_append {c : Char} (cs : List Char) {tail : List Char}
    (htail : ∀ d ∈ tail.head?, d ≠ c) : tripled c (cs ++ tail) = tripled c cs := by
  match cs, tail with
  | _, [] => rw [List.append_nil]
  | [], [d] => rfl
  | [], d :: d' :: tail => simp [tripled, htail d rfl]
  | [a], d :: tail => simp [tripled, htail d rfl]
  | a :: b :: cs, d :: tail => rfl

/-- The text up to the end of the line, and the text from there on. -/
theorem takeWhile_append_of_newline {cs tail : List Char} (hcs : '\n' ∉ cs)
    (htail : ∀ d ∈ tail.head?, d = '\n') :
    (cs ++ tail).takeWhile (· != '\n') = cs ∧ (cs ++ tail).dropWhile (· != '\n') = tail := by
  have hkeep : ∀ c ∈ cs, (c != '\n') = true := by
    intro c hc
    simpa using fun e : c = '\n' => hcs (e ▸ hc)
  rw [List.takeWhile_append_of_pos hkeep, List.dropWhile_append_of_pos hkeep]
  cases tail with
  | nil => simp
  | cons d tail =>
    have hd : d = '\n' := htail d rfl
    simp [hd]

theorem right_right (pos : Position) (a b : Nat) : (pos.right a).right b = pos.right (a + b) := by
  simp [Position.right, Nat.add_assoc]

theorem past_of_ne (pos : Position) {c : Char} (hc : c ≠ '\n') :
    past pos c = pos.right (Text.width16 [c]) := by
  simp [past, hc]

/-- Strings are delimited by single and by double quotes. -/
theorem Piece.mark_of_opening {mode : Option Quote} {c : Char} {cs : List Char} {q : Quote}
    (h : first mode c cs = .opening q) : q.mark = '"' ∨ q.mark = '\'' := by
  cases mode with
  | none =>
    simp only [first, firstOutside] at h
    split at h
    · cases h
    split at h
    · cases h
    split at h
    · obtain rfl := Piece.opening.inj h
      assumption
    · cases h
  | some q' =>
    simp only [first, firstInside] at h
    split at h
    · split at h <;> cases h
    split at h <;> cases h

/-- A string is closed by its own delimiter. -/
theorem Piece.eq_of_closing {mode : Option Quote} {c : Char} {cs : List Char} {q : Quote}
    (h : first mode c cs = .closing q) : mode = some q := by
  cases mode with
  | none =>
    simp only [first, firstOutside] at h
    split at h
    · cases h
    split at h
    · cases h
    split at h <;> cases h
  | some q' =>
    simp only [first, firstInside] at h
    split at h
    · split at h <;> cases h
    split at h
    · exact congrArg some (Piece.closing.inj h)
    · cases h

theorem Quote.width_sub_one_le {c : Char} {cs : List Char} {q : Quote}
    (h : q.triple → tripled c cs) : q.width - 1 ≤ cs.length := by
  unfold width
  split
  · obtain ⟨more, rfl⟩ := Piece.exists_of_tripled (h ‹_›)
    simp
  · simp

theorem Quote.drop_width_append {c : Char} {cs : List Char} {q : Quote}
    (h : q.triple → tripled c cs) (tail : List Char) :
    (cs ++ tail).drop (q.width - 1) = cs.drop (q.chars.length - 1) ++ tail := by
  rw [List.drop_append_of_le_length (width_sub_one_le h)]
  simp [chars]

/-- The first piece of a line is the first token of the text, or the first two. -/
theorem tokens_first (string : Option OpenString) (pos : Position) {c : Char} {cs tail : List Char}
    (hline : '\n' ∉ c :: cs) (htail : ∀ d ∈ tail.head?, d = '\n') {p : Piece}
    (hp : Piece.first (string.map OpenString.quote) c cs = p) :
    tokens (.behind string none) pos (c :: (cs ++ tail)) =
      p.tokens pos ++ tokens (.behind (p.openString pos string) (some p))
        (pos.right (Text.width16 p.chars)) (cs.drop (p.chars.length - 1) ++ tail) := by
  have hc : c ≠ '\n' := fun e => hline (e ▸ .head _)
  have hcs : '\n' ∉ cs := fun h => hline (.tail _ h)
  have htripled := tripled_append cs fun d hd => by rw [htail d hd]; exact Ne.symm hc
  have hpast := past_of_ne pos hc
  cases string with
  | none =>
    simp only [Option.map_none, Piece.first, Piece.firstOutside] at hp
    simp only [Mode.behind]
    rw [tokens]
    by_cases hhash : c = '#'
    · obtain ⟨htake, hdrop⟩ := takeWhile_append_of_newline hcs htail
      simp only [if_pos hhash] at hp ⊢
      rw [htake, hdrop, ← hp]
      simp [Piece.tokens, Piece.chars, Piece.openString]
    by_cases hquote : c = '"' ∨ c = '\''
    · have hback : c ≠ '\\' := by rintro rfl; simp at hquote
      simp only [if_neg hhash, if_pos hquote, hback, false_and, if_false, htripled] at hp ⊢
      rw [Quote.drop_width_append id tail, ← hp]
      rfl
    · simp only [if_neg hhash, if_neg hquote, if_neg hc] at hp ⊢
      rw [hpast, ← hp]
      split
      · rename_i hback
        rw [hback.1]
        rfl
      · rfl
  | some o =>
    simp only [Option.map_some, Piece.first, Piece.firstInside] at hp
    simp only [Mode.behind]
    rw [if_neg (by simp), tokens]
    by_cases hback : c = '\\'
    · simp only [if_pos hback] at hp ⊢
      rw [hpast, hback]
      cases cs with
      | nil =>
        rw [← hp]
        rfl
      | cons d cs =>
        have hd : d ≠ '\n' := fun e => hcs (e ▸ .head _)
        have hescape : p = .escape d := hp.symm
        rw [hescape, List.cons_append, tokens, past_of_ne _ hd, right_right, ← Text.width16_append]
        rfl
    · by_cases hclose : c = o.quote.mark ∧ (o.quote.triple → tripled c cs)
      · simp only [if_neg hback, if_neg hc, htripled, if_pos hclose] at hp ⊢
        rw [Quote.drop_width_append hclose.2 tail, ← hp]
        rfl
      · simp only [if_neg hback, if_neg hc, htripled, if_neg hclose] at hp ⊢
        rw [hpast, ← hp]
        rfl

theorem Draft.mode_read (d : Draft) (pos : Position) (p : Piece) :
    (d.read pos p).mode = p.after d.mode := by
  unfold mode
  rw [string_read]
  cases p <;> rfl

theorem Piece.chars_first_append_drop (mode : Option Quote) (c : Char) (cs : List Char) :
    (first mode c cs).chars ++ cs.drop ((first mode c cs).chars.length - 1) = c :: cs := by
  have happ := chars_first_append mode c cs
  have hpos := length_chars_first_pos mode c cs
  obtain ⟨n, hn⟩ := Nat.exists_eq_succ_of_ne_zero (Nat.ne_of_gt hpos)
  rw [hn] at happ ⊢
  exact happ

/-- What holds of the pieces of a line follows piece by piece: each is the first one of what is left
of the line, and behind a last one nothing is left. -/
theorem pieces_induction {motive : Option Quote → List Char → List Piece → Prop}
    (nil : ∀ mode, motive mode [] [])
    (cons : ∀ mode c cs p rest, Piece.first mode c cs = p → p.chars ++ rest = c :: cs →
      (p.isLast = true → rest = []) → motive (p.after mode) rest (pieces (p.after mode) rest) →
        motive mode (c :: cs) (p :: pieces (p.after mode) rest))
    (mode : Option Quote) (line : List Char) : motive mode line (pieces mode line) := by
  match line with
  | [] => exact nil mode
  | c :: cs =>
    rw [pieces_cons]
    have hshort : (cs.drop ((Piece.first mode c cs).chars.length - 1)).length < cs.length + 1 := by
      rw [List.length_drop]
      omega
    exact cons mode c cs _ _ rfl (Piece.chars_first_append_drop mode c cs)
      Piece.drop_eq_nil_of_isLast (pieces_induction nil cons _ _)
termination_by line.length

/-- The tokens of a line are those of its pieces, and the text is read on behind the last one. -/
theorem tokens_line (d : Draft) (pos : Position) (events : List Event) {line : List Char}
    (hline : '\n' ∉ line) (tail : List Char) (htail : ∀ c ∈ tail.head?, c = '\n') :
    tokens (.behind d.string none) pos (line ++ tail) =
      pieceTokens pos (pieces d.mode line) ++
        tokens (.behind (d.readAll pos events (pieces d.mode line)).1.string
            (pieces d.mode line).getLast?) (pos.right (Text.width16 line)) tail := by
  generalize hmode : d.mode = mode
  induction mode, line using pieces_induction generalizing d pos events with
  | nil mode => rfl
  | cons mode c cs p rest hp hchars hlast ih =>
    have hwidth : Text.width16 p.chars + Text.width16 rest = Text.width16 (c :: cs) := by
      rw [← hchars, Text.width16_append]
    have hcut : cs.drop (p.chars.length - 1) = rest := by
      have hdrop := Piece.chars_first_append_drop mode c cs
      rw [hp, ← hchars] at hdrop
      exact List.append_cancel_left hdrop
    have hfirst := tokens_first d.string pos hline htail (hmode ▸ hp)
    rw [hcut, ← d.string_read] at hfirst
    rw [List.cons_append, hfirst, Draft.readAll_cons, pieceTokens, List.append_assoc]
    -- Only a last piece can leave the text behind a backslash, and it leaves nothing of the line;
    -- behind any other piece the rest of the line is read in the same way.
    cases hp' : p.isLast with
    | true =>
      rw [← hwidth, hlast hp']
      rfl
    | false =>
      have hrest : '\n' ∉ rest := by
        intro hmem
        exact hline (hchars ▸ List.mem_append_right _ hmem)
      have hmode' : (d.read pos p).mode = p.after mode := by rw [d.mode_read, hmode]
      rw [Mode.behind_of_isLast_eq_false _ hp', Piece.next_of_isLast_eq_false pos hp',
        ih _ _ ((d.event? pos p).toList ++ events) hrest hmode', right_right, hwidth,
        Mode.behind_getLast?_cons _ hp']

/-! ## The end of a line and the end of the text -/

namespace Mode

/-- Where the text is read on behind a line feed. -/
def next : Mode → Mode
  | code => code
  | string o => if o.quote.triple then string o else code
  | escaped o => string o

/-- The tokens at a line feed. -/
def lineEnd (pos : Position) : Mode → List Token
  | code => [⟨pos, .lineEnd⟩]
  | string o =>
    if o.quote.triple then [⟨pos, .body '\n'⟩]
    else [⟨o.start, .unterminated false⟩, ⟨pos, .lineEnd⟩]
  | escaped _ => [⟨pos, .body '\n'⟩]

/-- The tokens at the end of the text. -/
def textEnd : Mode → List Token
  | code => []
  | string o | escaped o => [⟨o.start, .unterminated o.quote.triple⟩]

theorem next_behind (string : Option OpenString) (last : Option Piece) :
    ∃ string', (behind string last).next = behind string' none := by
  cases behind string last with
  | code => exact ⟨none, rfl⟩
  | string o =>
    cases h : o.quote.triple with
    | true => exact ⟨some o, by simp [next, behind, h]⟩
    | false => exact ⟨none, by simp [next, behind, h]⟩
  | escaped o => exact ⟨some o, by simp [next, behind]⟩

end Mode

theorem tokens_nil (mode : Mode) (pos : Position) : tokens mode pos [] = mode.textEnd := by
  cases mode <;> rw [tokens] <;> rfl

theorem tokens_newline (mode : Mode) (pos : Position) (text : List Char) :
    tokens mode pos ('\n' :: text) =
      mode.lineEnd pos ++ tokens mode.next ⟨pos.line + 1, 0⟩ text := by
  cases mode with
  | code =>
    rw [tokens]
    simp [past, Mode.lineEnd, Mode.next]
  | string o =>
    rw [tokens]
    cases h : o.quote.triple <;> simp [h, past, Mode.lineEnd, Mode.next]
  | escaped o =>
    rw [tokens]
    simp [past, Mode.lineEnd, Mode.next]

/-- A line of the text with its line feed: what is behind it matters to its tokens as little as
they matter to the text behind it, but for the string that is open. -/
theorem tokens_line_newline (string : Option OpenString) (pos : Position) {line : List Char}
    (hline : '\n' ∉ line) :
    ∃ ts string', ∀ text, tokens (.behind string none) pos (line ++ '\n' :: text) =
      ts ++ tokens (.behind string' none) ⟨pos.line + 1, 0⟩ text := by
  let d : Draft := { Draft.begin pos 0 with string }
  let ps := pieces d.mode line
  obtain ⟨string', hnext⟩ := Mode.next_behind (d.readAll pos [] ps).1.string ps.getLast?
  refine ⟨pieceTokens pos ps ++
    (Mode.behind (d.readAll pos [] ps).1.string ps.getLast?).lineEnd
      (pos.right (Text.width16 line)), string', ?_⟩
  intro text
  have hcut := tokens_line d pos [] hline ('\n' :: text) (by simp)
  rw [tokens_newline, hnext, ← List.append_assoc] at hcut
  exact hcut

section Ended

variable {α : Type} {f : Token → List α} (hend : ∀ pos, f ⟨pos, .lineEnd⟩ = [])
  (hbody : ∀ pos c, f ⟨pos, .body c⟩ = [])

include hend hbody

theorem flatMap_lineEnd (mode : Mode) (pos : Position) :
    (mode.lineEnd pos ++ mode.next.textEnd).flatMap f = mode.textEnd.flatMap f := by
  cases mode with
  | code => simp [Mode.lineEnd, Mode.next, Mode.textEnd, hend]
  | string o =>
    cases h : o.quote.triple <;>
      simp [Mode.lineEnd, Mode.next, Mode.textEnd, h, hend, hbody]
  | escaped o => simp [Mode.lineEnd, Mode.next, Mode.textEnd, hbody]

theorem flatMap_tokens_unended (string : Option OpenString) (row : Nat)
    {front : List (List Char)} {last : List Char} (hfront : ∀ line ∈ front, '\n' ∉ line)
    (hlast : '\n' ∉ last) :
    (tokens (.behind string none) ⟨row, 0⟩ (Text.unlines front ++ last)).flatMap f =
      (tokens (.behind string none) ⟨row, 0⟩ (Text.unlines (front ++ [last]))).flatMap f := by
  -- From one line to the next only the open string is passed on.
  induction front generalizing string row with
  | nil =>
    have hline := tokens_line { Draft.begin ⟨row, 0⟩ 0 with string } ⟨row, 0⟩ [] hlast
    have hempty := hline [] (by simp)
    have hended := hline ['\n'] (by simp)
    rw [tokens_nil, List.append_nil] at hempty
    rw [tokens_newline, tokens_nil] at hended
    simp only [Text.unlines, List.flatMap_nil, List.nil_append, List.flatMap_cons, List.append_nil]
    rw [hempty, hended, List.flatMap_append, List.flatMap_append, flatMap_lineEnd hend hbody]
  | cons line front ih =>
    obtain ⟨hline, hfront⟩ := List.forall_mem_cons.1 hfront
    obtain ⟨ts, string', hcut⟩ := tokens_line_newline string ⟨row, 0⟩ hline
    rw [List.cons_append, Text.unlines_cons, Text.unlines_cons, List.append_assoc,
      List.cons_append, hcut, hcut, List.flatMap_append, List.flatMap_append,
      ih string' (row + 1) hfront]

/-- Whether the last line has its line feed matters only to those who ask for the characters in
strings and for the ends of lines. -/
theorem flatMap_tokenize {text : List Char} {ls : List (List Char)} (h : Text.Spells ls text)
    (hls : ∀ line ∈ ls, '\n' ∉ line) :
    (tokenize text).flatMap f = (tokenize (Text.unlines ls)).flatMap f := by
  cases h with
  | ended => rfl
  | unended front last =>
    obtain ⟨hfront, hlast⟩ := List.forall_mem_append.1 hls
    exact flatMap_tokens_unended hend hbody none 0 hfront (hlast last (.head _))

end Ended

/-! ## Findings -/

/-- The token is a comment or the end of a string that is not closed. -/
def Token.isFinding (t : Token) : Bool :=
  match t.lexeme with
  | .comment _ | .unterminated _ => true
  | _ => false

/-- The comments and unclosed strings among the tokens. -/
def findings (ts : List Token) : List Token :=
  ts.filter Token.isFinding

theorem findings_append (ts ts' : List Token) :
    findings (ts ++ ts') = findings ts ++ findings ts' :=
  List.filter_append _ _

theorem findings_eq_flatMap (ts : List Token) :
    findings ts = ts.flatMap fun t => if t.isFinding then [t] else [] := by
  induction ts with
  | nil => rfl
  | cons t ts ih =>
    rw [List.flatMap_cons, ← ih, findings, List.filter_cons]
    split <;> rfl

/-- The findings come in the order of their places, and none before a given place. -/
def InOrderFrom (pos : Position) (ts : List Token) : Prop :=
  (pos :: (findings ts).map Token.place).Pairwise fun p q => p.precedes q

namespace InOrderFrom

variable {pos pos' : Position} {t : Token} {ts : List Token}

theorem of_precedes (hpos : pos.precedes pos') (h : InOrderFrom pos' ts) : InOrderFrom pos ts := by
  obtain ⟨hfrom, hpairwise⟩ := List.pairwise_cons.1 h
  exact List.pairwise_cons.2
    ⟨fun q hq => Position.precedes_trans hpos (hfrom q hq), hpairwise⟩

theorem skip (ht : t.isFinding = false) (h : InOrderFrom pos ts) : InOrderFrom pos (t :: ts) := by
  rw [InOrderFrom, findings, List.filter_cons_of_neg (by simp [ht])]
  exact h

theorem take (ht : t.isFinding = true) (hpos : pos.precedes t.place)
    (h : InOrderFrom t.place ts) : InOrderFrom pos (t :: ts) := by
  refine of_precedes hpos ?_
  rw [InOrderFrom, findings, List.filter_cons_of_pos ht, List.map_cons, List.pairwise_cons]
  refine ⟨?_, h⟩
  intro q hq
  rcases List.mem_cons.1 hq with rfl | hq
  · exact Position.precedes_refl _
  · exact (List.pairwise_cons.1 h).1 q hq

end InOrderFrom

theorem precedes_right (pos : Position) (columns : Nat) : pos.precedes (pos.right columns) := by
  simp [Position.precedes, Position.right]

theorem precedes_past (pos : Position) (c : Char) : pos.precedes (past pos c) := by
  unfold past
  split
  · simp [Position.precedes]
  · exact precedes_right _ _

/-- Where the first finding can be: here, or where the open string begins. -/
def Mode.earliest (pos : Position) : Mode → Position
  | code => pos
  | string o | escaped o => o.start

/-- The findings of a text come in the order of their places. -/
theorem inOrderFrom_tokens (mode : Mode) (pos : Position) (text : List Char)
    (h : (mode.earliest pos).precedes pos) :
    InOrderFrom (mode.earliest pos) (tokens mode pos text) := by
  have hrefl := Position.precedes_refl
  fun_induction tokens mode pos text with
  | case1 pos => exact List.pairwise_singleton _ _
  | case2 pos o => exact .take rfl (hrefl _) (List.pairwise_singleton _ _)
  | case3 pos o => exact .take rfl (hrefl _) (List.pairwise_singleton _ _)
  | case4 pos cs comment ih =>
    exact .take rfl (hrefl _) ((ih (hrefl _)).of_precedes (precedes_right _ _))
  | case5 pos c cs hhash hquote q ih => exact .skip rfl (ih (precedes_right _ _))
  | case6 pos cs hhash hquote ih =>
    exact .skip rfl ((ih (hrefl _)).of_precedes (precedes_past _ _))
  | case7 pos c cs hhash hquote hc ih =>
    exact .skip rfl ((ih (hrefl _)).of_precedes (precedes_past _ _))
  | case8 pos cs o ih =>
    exact .skip rfl (ih (Position.precedes_trans h (precedes_past _ _)))
  | case9 pos cs o hback htriple ih =>
    exact .skip rfl (ih (Position.precedes_trans h (precedes_past _ _)))
  | case10 pos cs o hback htriple ih =>
    have hrest := (ih (hrefl _)).of_precedes (Position.precedes_trans h (precedes_past pos _))
    exact .take rfl (hrefl _) (.skip rfl hrest)
  | case11 pos c cs o hback hc hclose ih =>
    have hright := precedes_right pos (Text.width16 o.quote.chars)
    exact .skip rfl ((ih (hrefl _)).of_precedes (Position.precedes_trans h hright))
  | case12 pos c cs o hback hc hclose ih =>
    exact .skip rfl (ih (Position.precedes_trans h (precedes_past _ _)))
  | case13 pos c cs o ih =>
    exact .skip rfl (ih (Position.precedes_trans h (precedes_past _ _)))

/-- The findings of a whole text come in the order of their places. -/
theorem pairwise_findings_tokenize (text : List Char) :
    ((findings (tokenize text)).map Token.place).Pairwise fun p q => p.precedes q :=
  (List.pairwise_cons.1 (inOrderFrom_tokens .code ⟨0, 0⟩ text (Position.precedes_refl _))).2

end Reparse.Layout
