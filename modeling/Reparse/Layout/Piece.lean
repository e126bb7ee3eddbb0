import Reparse.Text.Units

/-!
A physical line cut into the pieces of which it is made: characters of code, the delimiters of
strings, the characters inside them, and a comment. What a piece is depends only on the string
that is open before it and on the characters from it on. The pieces of a line are the line again,
so nothing is lost.
-/

namespace Reparse.Layout

/-- The delimiter of a string: its quote character, written once or three times. -/
structure Quote where
  mark : Char
  triple : Bool
deriving DecidableEq, Repr

namespace Quote

/-- How many quote characters the delimiter has. -/
def width (q : Quote) : Nat :=
  if q.triple then 3 else 1

/-- The delimiter as it is written. -/
def chars (q : Quote) : List Char :=
  List.replicate q.width q.mark

end Quote

/-- A piece of a physical line. -/
inductive Piece where
  /-- A character outside strings and comments. -/
  | code (c : Char)
  | opening (q : Quote)
  | closing (q : Quote)
  /-- A character of a string that stands for itself. -/
  | body (c : Char)
  /-- A backslash in a string with the character that it takes with it. -/
  | escape (c : Char)
  /-- A backslash in a string that takes the end of the line with it. -/
  | escapedBreak
  /-- A backslash outside strings that ends the line and joins the next line to it. -/
  | continuation
  /-- A comment, from its number sign to the end of the line. -/
  | comment (text : List Char)
deriving DecidableEq, Repr

/-- The character stands twice more at the head of the text. -/
def tripled (c : Char) : List Char → Bool
  | a :: b :: _ => a == c && b == c
  | _ => false

namespace Piece

/-- The piece as it is written. -/
def chars : Piece → List Char
  | code c => [c]
  | opening q => q.chars
  | closing q => q.chars
  | body c => [c]
  | escape c => ['\\', c]
  | escapedBreak => ['\\']
  | continuation => ['\\']
  | comment text => text

/-- The string that is open after the piece. -/
def after (mode : Option Quote) : Piece → Option Quote
  | opening q => some q
  | closing _ => none
  | _ => mode

/-- The piece with which a text begins outside strings. -/
def firstOutside (c : Char) (rest : List Char) : Piece :=
  if c = '#' then comment (c :: rest)
  else if c = '\\' ∧ rest.isEmpty then continuation
  else if c = '"' ∨ c = '\'' then opening ⟨c, tripled c rest⟩
  else code c

/-- The piece with which a text begins inside a string. -/
def firstInside (q : Quote) (c : Char) (rest : List Char) : Piece :=
  if c = '\\' then
    match rest with
    | [] => escapedBreak
    | d :: _ => escape d
  else if c = q.mark ∧ (q.triple → tripled c rest) then closing q
  else body c

/-- The piece with which a text begins, given the string that is open before it. -/
def first (mode : Option Quote) (c : Char) (rest : List Char) : Piece :=
  match mode with
  | none => firstOutside c rest
  | some q => firstInside q c rest

theorem exists_of_tripled {c : Char} {rest : List Char} (h : tripled c rest) :
    ∃ more, rest = c :: c :: more := by
  match rest with
  | a :: b :: more =>
    simp only [tripled, Bool.and_eq_true, beq_iff_eq] at h
    exact ⟨more, by rw [h.1, h.2]⟩

/-- The first piece is a beginning of the text. -/
theorem chars_first_append (mode : Option Quote) (c : Char) (rest : List Char) :
    (first mode c rest).chars ++ (c :: rest).drop (first mode c rest).chars.length = c :: rest := by
  cases mode with
  | none =>
    simp only [first, firstOutside]
    split
    · simp [chars]
    split
    · rename_i h
      simp [chars, h.1]
    split
    · by_cases ht : tripled c rest
      · obtain ⟨more, rfl⟩ := exists_of_tripled ht
        simp [chars, Quote.chars, Quote.width, ht, List.replicate]
      · simp [chars, Quote.chars, Quote.width, ht]
    · simp [chars]
  | some q =>
    simp only [first, firstInside]
    split
    · rename_i h
      subst h
      split <;> simp [chars]
    split
    · rename_i h
      obtain ⟨rfl, h⟩ := h
      cases ht : q.triple with
      | true =>
        obtain ⟨more, rfl⟩ := exists_of_tripled (h ht)
        simp [chars, Quote.chars, Quote.width, ht, List.replicate]
      | false => simp [chars, Quote.chars, Quote.width, ht]
    · simp [chars]

end Piece

/-- Cuts a text with `done` pieces behind it, newest first, of which the last one still covers the
next `skip` characters. -/
def piecesFrom (done : List Piece) (mode : Option Quote) (skip : Nat) : List Char → List Piece
  | [] => done.reverse
  | c :: cs =>
    match skip with
    | n + 1 => piecesFrom done mode n cs
    | 0 =>
      let p := Piece.first mode c cs
      piecesFrom (p :: done) (p.after mode) (p.chars.length - 1) cs

/-- The pieces of a line that begins with the given string open. -/
def pieces (mode : Option Quote) (line : List Char) : List Piece :=
  piecesFrom [] mode 0 line

@[simp]
theorem pieces_nil (mode : Option Quote) : pieces mode [] = [] := rfl

theorem piecesFrom_done (done : List Piece) (mode : Option Quote) (skip : Nat) (cs : List Char) :
    piecesFrom done mode skip cs = done.reverse ++ piecesFrom [] mode skip cs := by
  induction cs generalizing done mode skip with
  | nil => simp [piecesFrom]
  | cons c cs ih =>
    cases skip with
    | zero =>
      simp only [piecesFrom]
      rw [ih, ih [Piece.first mode c cs]]
      simp
    | succ n => exact ih done mode n

theorem piecesFrom_skip (done : List Piece) (mode : Option Quote) (skip : Nat) (cs : List Char) :
    piecesFrom done mode skip cs = done.reverse ++ pieces mode (cs.drop skip) := by
  induction cs generalizing done mode skip with
  | nil => simp [piecesFrom]
  | cons c cs ih =>
    cases skip with
    | zero => exact piecesFrom_done done mode 0 (c :: cs)
    | succ n => exact ih done mode n

/-- The pieces of a line are its first piece and the pieces of what that leaves. -/
theorem pieces_cons (mode : Option Quote) (c : Char) (cs : List Char) :
    pieces mode (c :: cs) = Piece.first mode c cs ::
      pieces ((Piece.first mode c cs).after mode)
        (cs.drop ((Piece.first mode c cs).chars.length - 1)) := by
  rw [pieces, piecesFrom, piecesFrom_skip]
  rfl

theorem Piece.length_chars_first_pos (mode : Option Quote) (c : Char) (rest : List Char) :
    0 < (Piece.first mode c rest).chars.length := by
  rcases h : (Piece.first mode c rest).chars with _ | ⟨d, ds⟩
  · cases mode with
    | none =>
      revert h
      simp only [first, firstOutside]
      split
      · simp [chars]
      split
      · simp [chars]
      split
      · simp [chars, Quote.chars, Quote.width]
        split <;> simp
      · simp [chars]
    | some q =>
      revert h
      simp only [first, firstInside]
      split
      · split <;> simp [chars]
      split
      · simp [chars, Quote.chars, Quote.width]
        split <;> simp
      · simp [chars]
  · simp

/-- Put together again, the pieces are the line. -/
theorem flatMap_chars_pieces (mode : Option Quote) (line : List Char) :
    (pieces mode line).flatMap Piece.chars = line := by
  match line with
  | [] => rfl
  | c :: cs =>
    have hpos := Piece.length_chars_first_pos mode c cs
    have happ := Piece.chars_first_append mode c cs
    rw [pieces_cons, List.flatMap_cons, flatMap_chars_pieces]
    obtain ⟨n, hn⟩ : ∃ n, (Piece.first mode c cs).chars.length = n + 1 :=
      ⟨_, (Nat.succ_pred_eq_of_pos hpos).symm⟩
    simpa [hn] using happ
termination_by line.length

end Reparse.Layout
