import Reparse.Proofs.Layout.Cut

/-!
What is written in a string does not matter. A character in the body of a string leaves nothing but
its width, and where it stands at the end of what has been read, also whether it is blank: the
logical line reaches to the last character that is not. The delimiter that closes the string is not
blank, so behind it even that is forgotten.
-/

namespace Reparse

namespace Layout

/-- The character stands for itself in every string, and neither ends a line nor belongs to the end
of one. -/
def IsPlain (c : Char) : Prop :=
  c ≠ '"' ∧ c ≠ '\'' ∧ c ≠ '\\' ∧ c ≠ '\n' ∧ c ≠ '\r'

instance : DecidablePred IsPlain := fun c =>
  inferInstanceAs (Decidable (c ≠ '"' ∧ c ≠ '\'' ∧ c ≠ '\\' ∧ c ≠ '\n' ∧ c ≠ '\r'))

/-! ## Lexemes -/

namespace Lexeme

/-- The lexeme as it is written. -/
def chars : Lexeme → List Char
  | code c => [c]
  | lineEnd => ['\n']
  | comment text => text
  | opening q => q.chars
  | closing q => q.chars
  | body c => [c]
  | unterminated _ => []

/-- The string that is open in front of the lexemes is closed in them. -/
inductive Closes : List Lexeme → Prop
  | closing (q : Quote) (ls : List Lexeme) : Closes (.closing q :: ls)
  | body (c : Char) {ls : List Lexeme} : Closes ls → Closes (.body c :: ls)

end Lexeme

/-- The lexemes of tokens. -/
def lexemes (ts : List Token) : List Lexeme :=
  ts.map Token.lexeme

theorem Quote.chars_append_drop {c : Char} {cs : List Char} {q : Quote} (hc : c = q.mark)
    (h : q.triple → tripled c cs) : q.chars ++ cs.drop (q.width - 1) = c :: cs := by
  subst hc
  unfold chars width
  cases ht : q.triple with
  | true =>
    obtain ⟨more, rfl⟩ := Piece.exists_of_tripled (h ht)
    rfl
  | false => rfl

/-- Written one after the other, the lexemes of a text are the text. -/
theorem flatMap_chars_lexemes (mode : Mode) (pos : Position) (text : List Char) :
    (lexemes (tokens mode pos text)).flatMap Lexeme.chars = text := by
  unfold lexemes
  fun_induction tokens mode pos text with
  | case1 pos => rfl
  | case2 pos o => rfl
  | case3 pos o => rfl
  | case4 pos cs comment ih =>
    rw [List.map_cons, List.flatMap_cons, ih]
    exact congrArg ('#' :: ·) (List.takeWhile_append_dropWhile)
  | case5 pos c cs hhash hquote q ih =>
    rw [List.map_cons, List.flatMap_cons, ih]
    exact Quote.chars_append_drop rfl id
  | case6 pos cs hhash hquote ih => exact congrArg ('\n' :: ·) ih
  | case7 pos c cs hhash hquote hc ih => exact congrArg (c :: ·) ih
  | case8 pos cs o ih => exact congrArg ('\\' :: ·) ih
  | case9 pos cs o hback htriple ih => exact congrArg ('\n' :: ·) ih
  | case10 pos cs o hback htriple ih => exact congrArg ('\n' :: ·) ih
  | case11 pos c cs o hback hc hclose ih =>
    rw [List.map_cons, List.flatMap_cons, ih]
    exact Quote.chars_append_drop hclose.1 hclose.2
  | case12 pos c cs o hback hc hclose ih => exact congrArg (c :: ·) ih
  | case13 pos c cs o ih => exact congrArg (c :: ·) ih

/-- There is one lexeme at a place of the text. -/
theorem eq_of_append_eq_append {as bs ls rs : List Lexeme} {l : Lexeme} {c : Char}
    (h : as ++ l :: bs = ls ++ .body c :: rs)
    (hle : (as.flatMap Lexeme.chars).length ≤ (ls.flatMap Lexeme.chars).length)
    (hlt : (ls.flatMap Lexeme.chars).length < (as.flatMap Lexeme.chars).length + l.chars.length) :
    l = .body c ∧ bs = rs := by
  rcases List.append_eq_append_iff.1 h with ⟨mid, rfl, hmid⟩ | ⟨mid, rfl, hmid⟩
  · cases mid with
    | nil => exact List.cons.inj hmid
    | cons l' mid =>
      obtain ⟨rfl, -⟩ := List.cons.inj hmid
      simp only [List.flatMap_append, List.flatMap_cons, List.length_append] at hlt
      omega
  · cases mid with
    | nil =>
      obtain ⟨hl, hbs⟩ := List.cons.inj hmid
      exact ⟨hl.symm, hbs.symm⟩
    | cons l' mid =>
      obtain ⟨rfl, -⟩ := List.cons.inj hmid
      simp only [List.flatMap_append, List.flatMap_cons, List.length_append, Lexeme.chars,
        List.length_singleton] at hle
      omega

namespace Piece

/-- The lexemes of a piece. -/
def lexemes : Piece → List Lexeme
  | code c => [.code c]
  | opening q => [.opening q]
  | closing q => [.closing q]
  | body c => [.body c]
  | escape c => [.body '\\', .body c]
  | escapedBreak => [.body '\\']
  | continuation => [.code '\\']
  | comment text => [.comment text]

theorem flatMap_chars_lexemes (p : Piece) : p.lexemes.flatMap Lexeme.chars = p.chars := by
  cases p <;> simp [lexemes, chars, Lexeme.chars]

end Piece

theorem lexemes_pieceTokens (pos : Position) (ps : List Piece) :
    lexemes (pieceTokens pos ps) = ps.flatMap Piece.lexemes := by
  induction ps generalizing pos with
  | nil => rfl
  | cons p ps ih =>
    rw [pieceTokens, lexemes, List.map_append, List.flatMap_cons, ← ih (p.next pos)]
    cases p <;> rfl

theorem flatMap_chars_flatMap_lexemes (ps : List Piece) :
    (ps.flatMap Piece.lexemes).flatMap Lexeme.chars = ps.flatMap Piece.chars := by
  rw [List.flatMap_assoc]
  simp only [Piece.flatMap_chars_lexemes]

/-! ## Logical lines that may end at different places -/

namespace Draft

/-- The same logical line, but that it may reach to another place. -/
def SameButStop (d d' : Draft) : Prop :=
  d' = { d with stop := d'.stop }

variable {d d' : Draft}

theorem SameButStop.event? (h : d.SameButStop d') (pos : Position) (p : Piece) :
    d'.event? pos p = d.event? pos p := by
  rw [h]
  rfl

theorem SameButStop.read (h : d.SameButStop d') (pos : Position) (p : Piece) :
    (d.read pos p).SameButStop (d'.read pos p) := by
  obtain ⟨start, stop, indent, text, brackets, string⟩ := d
  rw [h]
  cases p with
  | comment text => rfl
  | _ =>
    simp only [Draft.read, reach]
    split <;> rfl

/-- A delimiter is not blank, so behind it the logical line is the same. -/
theorem SameButStop.read_closing (h : d.SameButStop d') (pos : Position) {q : Quote}
    (hq : IsMark q.mark) : d.read pos (.closing q) = d'.read pos (.closing q) := by
  have hblank : (Piece.closing q).chars.all Text.isBlank = false := by
    have hmark : Text.isBlank q.mark = false := by
      rcases hq with h | h <;> rw [h] <;> decide
    simp only [Piece.chars, Quote.chars, Quote.width]
    split <;> simp [List.replicate, hmark]
  rw [h]
  simp only [Draft.read, reach, hblank]
  rfl

/-- Which character it is that stands in a string matters to nothing but the end of the line. -/
theorem sameButStop_read_body (d : Draft) (pos : Position) (c c' : Char) :
    (d.read pos (.body c)).SameButStop (d.read pos (.body c')) := by
  simp only [Draft.read, reach]
  split <;> split <;> rfl

theorem read_escape (d : Draft) (pos : Position) {c c' : Char}
    (hwidth : Text.units16 c = Text.units16 c') :
    d.read pos (.escape c) = d.read pos (.escape c') := by
  have hblank : ∀ a, (Piece.escape a).chars.all Text.isBlank = false := by
    intro a
    have hback : Text.isBlank '\\' = false := by decide
    simp [Piece.chars, hback]
  simp only [Draft.read, reach, hblank]
  simp only [Piece.chars, Text.width16_cons, hwidth]

end Draft

/-- A line that is read on inside a string: either the string is closed in it, and behind it the
logical lines are the same, or the string stays open and is closed further on. -/
theorem readAll_inside {q : Quote} (hq : IsMark q.mark) {mode : Option Quote} {line : List Char}
    (hmode : mode = some q) {d d' : Draft} (h : d.SameButStop d') (pos : Position)
    (events : List Event) {rs : List Lexeme}
    (hcloses : Lexeme.Closes ((pieces mode line).flatMap Piece.lexemes ++ rs)) :
    d.readAll pos events (pieces mode line) = d'.readAll pos events (pieces mode line) ∨
      (d.readAll pos events (pieces mode line)).1.SameButStop
          (d'.readAll pos events (pieces mode line)).1 ∧
        (d.readAll pos events (pieces mode line)).2 =
          (d'.readAll pos events (pieces mode line)).2 ∧
        (d.readAll pos events (pieces mode line)).1.string = d.string ∧ Lexeme.Closes rs := by
  induction mode, line using pieces_induction generalizing d d' pos events with
  | nil mode => exact .inr ⟨h, rfl, rfl, hcloses⟩
  | cons mode c cs p rest hp hchars hlast ih =>
    subst hmode
    rw [Draft.readAll_cons, Draft.readAll_cons, h.event?]
    rw [List.flatMap_cons, List.append_assoc] at hcloses
    -- What closes the string comes behind characters of the string, and nothing else does.
    cases p with
    | body b =>
      have hstring : (d.read pos (.body b)).string = d.string := d.string_read pos _
      cases hcloses with
      | body _ hrest => exact hstring ▸ ih rfl (h.read pos _) _ _ hrest
    | escape b =>
      have hstring : (d.read pos (.escape b)).string = d.string := d.string_read pos _
      cases hcloses with
      | body _ hrest =>
        cases hrest with
        | body _ hrest => exact hstring ▸ ih rfl (h.read pos _) _ _ hrest
    | escapedBreak =>
      have hstring : (d.read pos .escapedBreak).string = d.string := d.string_read pos _
      cases hcloses with
      | body _ hrest => exact hstring ▸ ih rfl (h.read pos _) _ _ hrest
    | closing q' =>
      obtain rfl := Option.some.inj (Piece.eq_of_closing hp)
      rw [h.read_closing pos hq]
      exact .inl rfl
    | _ => cases hcloses

/-! ## Two readers -/

/-- A string stays open over the end of a line only if that is escaped or the delimiter is a triple
one. -/
theorem Lexeme.Closes.lineEnd {o : OpenString} {last : Option Piece} {pos : Position}
    {text : List Char}
    (h : Lexeme.Closes (lexemes (tokens (.behind (some o) last) pos ('\n' :: text)))) :
    (o.quote.triple = true ∨ last = some .escapedBreak) ∧
      Lexeme.Closes (lexemes (tokens (.string o) ⟨pos.line + 1, 0⟩ text)) := by
  rw [tokens_newline, lexemes, List.map_append] at h
  by_cases hlast : last = some .escapedBreak
  · have hmode : Mode.behind (some o) last = .escaped o := if_pos hlast
    rw [hmode] at h
    cases h with
    | body _ h => exact ⟨.inr hlast, h⟩
  · have hmode : Mode.behind (some o) last = .string o := if_neg hlast
    rw [hmode] at h
    cases ht : o.quote.triple with
    | true =>
      simp only [Mode.lineEnd, Mode.next, ht, if_true] at h
      cases h with
      | body _ h => exact ⟨.inl rfl, h⟩
    | false =>
      rw [Mode.lineEnd, ht] at h
      cases h

/-- A string that is open at the end of the text is not closed. -/
theorem Lexeme.not_closes_textEnd (o : OpenString) (last : Option Piece) (pos : Position) :
    ¬Lexeme.Closes (lexemes (tokens (.behind (some o) last) pos [])) := by
  rw [tokens_nil]
  by_cases hlast : last = some .escapedBreak
  · have hmode : Mode.behind (some o) last = .escaped o := if_pos hlast
    rw [hmode]
    nofun
  · have hmode : Mode.behind (some o) last = .string o := if_neg hlast
    rw [hmode]
    nofun

theorem State.endLine_of_open (s : State) {d : Draft} {o : OpenString} (ho : d.string = some o)
    {last : Option Piece} (hopen : o.quote.triple = true ∨ last = some .escapedBreak)
    (pos : Position) :
    s.endLine d pos last = { s with draft := some { d with text := ' ' :: d.text } } := by
  have hbroken : d.broken? last = none := by
    rw [Draft.broken?, ho]
    rcases hopen with h | h <;> simp [h]
  exact s.endLine_of_not_isComplete d pos hbroken (by simp [Draft.isComplete, ho])

/-- Two readers before the same text: they are the same, or else both are inside a string that is
closed in the text, and differ in nothing but the place that the logical line reaches to so far. -/
inductive State.Alike (s s' : State) (row : Nat) (text : List Char) : Prop
  | same : s = s' → Alike s s' row text
  | inside {t : State} {d d' : Draft} {o : OpenString} : s = { t with draft := some d } →
    s' = { t with draft := some d' } → d.SameButStop d' → d.string = some o →
    IsMark o.quote.mark → Lexeme.Closes (lexemes (tokens (.string o) ⟨row, 0⟩ text)) →
      Alike s s' row text

/-- The rest of a line that is read on inside a string. -/
theorem State.alike_readPieces (s : State) {d d' : Draft} (h : d.SameButStop d') {o : OpenString}
    (ho : d.string = some o) (hmark : IsMark o.quote.mark) (pos pos' : Position) {ps : List Piece}
    {line : List Char} (hps : pieces (some o.quote) line = ps) {tail rest : List Char}
    (htail : tail = '\n' :: rest ∨ tail = [] ∧ rest = [])
    (hcloses : Lexeme.Closes (ps.flatMap Piece.lexemes ++
      lexemes (tokens (.behind (d.readAll pos s.events ps).1.string ps.getLast?) pos' tail))) :
    State.Alike (s.readPieces d pos ps) (s.readPieces d' pos ps) (pos'.line + 1) rest := by
  subst hps
  rw [readPieces, readPieces]
  rcases readAll_inside hmark rfl h pos s.events hcloses with
    hsame | ⟨hdraft, hplace, hstring, hrest⟩
  · rw [hsame]
    exact .same rfl
  · rw [hstring, ho] at hrest
    rcases htail with rfl | ⟨rfl, rfl⟩
    · obtain ⟨hopen, hnext⟩ := hrest.lineEnd
      have hstring' : (d'.readAll pos s.events (pieces (some o.quote) line)).1.string = some o := by
        rw [hdraft, hstring, ho]
      rw [endLine_of_open _ (hstring.trans ho) hopen, endLine_of_open _ hstring' hopen, ← hplace]
      refine .inside rfl rfl ?_ (hstring.trans ho) hmark hnext
      rw [Draft.SameButStop, hdraft]
    · exact absurd hrest (Lexeme.not_closes_textEnd o _ pos')

/-- Two readers before the same text end it alike. -/
theorem State.Alike.finish_readLines {s s' : State} {row : Nat} {text : List Char}
    {ls : List (List Char)} (h : s.Alike s' row text) (hls : ∀ line ∈ ls, '\n' ∉ line)
    (hspells : Text.Spells ls text) :
    (s.readLines row ls).finish = (s'.readLines row ls).finish := by
  induction ls generalizing s s' row text with
  | nil =>
    cases h with
    | same h => rw [h]
    | @inside t d d' o hs hs' h ho hmark hcloses =>
      rw [hspells.eq_nil] at hcloses
      exact absurd hcloses (Lexeme.not_closes_textEnd o none _)
  | cons line ls ih =>
    cases h with
    | same h => rw [h]
    | @inside t d d' o hs hs' h ho hmark hcloses =>
      obtain ⟨tail, rest, rfl, hspells, htail⟩ := hspells.exists_tail
      obtain ⟨hline, hls⟩ := List.forall_mem_cons.1 hls
      have hhead : ∀ c ∈ tail.head?, c = '\n' := by
        rcases htail with rfl | ⟨rfl, -⟩ <;> simp
      have hmode : d.mode = some o.quote := by rw [Draft.mode, ho]; rfl
      have hmode' : d'.mode = some o.quote := by rw [h]; exact hmode
      have htokens := tokens_line d ⟨row, 0⟩ t.events hline tail hhead
      rw [ho, hmode] at htokens
      have hbehind : Mode.behind (some o) none = .string o := rfl
      rw [← hbehind, htokens, lexemes, List.map_append, ← lexemes, lexemes_pieceTokens] at hcloses
      have halike := t.alike_readPieces h ho hmark ⟨row, 0⟩ _ rfl htail hcloses
      rw [State.readLines, State.readLines, hs, hs', State.readLine_of_draft rfl,
        State.readLine_of_draft rfl, t.readPieces_draft d, t.readPieces_draft d', hmode, hmode']
      exact ih halike hls hspells

/-! ## The character -/

theorem IsPlain.not_isMark {c : Char} (h : IsPlain c) : ¬IsMark c := by
  obtain ⟨hdouble, hsingle, -⟩ := h
  rintro (h | h)
  · exact hdouble h
  · exact hsingle h

theorem Piece.first_inside {q : Quote} (hq : IsMark q.mark) {c : Char} (hc : IsPlain c)
    (rest : List Char) : first (some q) c rest = .body c := by
  have hmark : c ≠ q.mark := fun h => hc.not_isMark (h ▸ hq)
  simp only [first, firstInside, hc.2.2.1, hmark, false_and, if_false]

theorem Piece.first_outside {c : Char} (hc : IsPlain c) (rest : List Char) :
    first none c rest = .comment (c :: rest) ∨ first none c rest = .code c := by
  have hmark : ¬(c = '"' ∨ c = '\'') := hc.not_isMark
  simp only [first, firstOutside, hc.2.2.1, hmark, false_and, if_false]
  split
  · exact .inl rfl
  · exact .inr rfl

/-- The piece in which the lexeme of a character stands, if the piece begins there. -/
theorem lexeme_of_piece {as bs : List Piece} {p : Piece} {l : Lexeme} {ms ends ls rs : List Lexeme}
    {c : Char} (h : (as ++ p :: bs).flatMap Piece.lexemes ++ ends = ls ++ .body c :: rs)
    (hp : p.lexemes = l :: ms)
    (hle : (as.flatMap Piece.chars).length ≤ (ls.flatMap Lexeme.chars).length)
    (hlt : (ls.flatMap Lexeme.chars).length < (as.flatMap Piece.chars).length + l.chars.length) :
    l = .body c ∧ ms ++ (bs.flatMap Piece.lexemes ++ ends) = rs := by
  rw [← flatMap_chars_flatMap_lexemes] at hle hlt
  rw [List.flatMap_append, List.flatMap_cons, hp] at h
  simp only [List.append_assoc, List.cons_append] at h
  exact eq_of_append_eq_append h hle hlt

/-- A character of a string is a piece for itself, or makes one with the backslash before it. Any
other character makes the same piece in its place, and leaves the others as they are. -/
theorem exists_form {d : Draft} (hmode : Marked d.mode) (pos : Position) (events : List Event)
    {u v tail : List Char} {c : Char} (hc : IsPlain c) (hline : '\n' ∉ u ++ c :: v)
    (htail : ∀ b ∈ tail.head?, b = '\n') {ls rs : List Lexeme}
    (hlexemes : lexemes (tokens (.behind d.string none) pos (u ++ c :: v ++ tail)) =
      ls ++ .body c :: rs) (hspell : ls.flatMap Lexeme.chars = u) :
    ∃ ps form q, (form = Piece.body ∨ form = Piece.escape) ∧
      ps.foldl Piece.after d.mode = some q ∧ IsMark q.mark ∧
      (∀ b, IsPlain b → pieces d.mode (u ++ b :: v) = ps ++ form b :: pieces (some q) v) ∧
      rs = (pieces (some q) v).flatMap Piece.lexemes ++
        lexemes (tokens
          (.behind (d.readAll pos events (pieces d.mode (u ++ c :: v))).1.string
            (pieces d.mode (u ++ c :: v)).getLast?)
          (pos.right (Text.width16 (u ++ c :: v))) tail) := by
  rw [tokens_line d pos events hline tail htail, lexemes, List.map_append, ← lexemes, ← lexemes,
    lexemes_pieceTokens] at hlexemes
  generalize lexemes (tokens (.behind _ _) _ tail) = ends at hlexemes ⊢
  have hlength := congrArg List.length hspell
  cases pieces_cut hmode u with
  | between ps hps _ hmarked hcut _ _ =>
    have hlen := congrArg List.length hps
    have hwhole := hcut c v hc.not_isMark
    cases hafter : ps.foldl Piece.after d.mode with
    | none =>
      -- Outside strings the character is code or begins a comment.
      rw [hafter, pieces_cons] at hwhole
      rw [hwhole] at hlexemes
      rcases Piece.first_outside hc v with hfirst | hfirst <;> rw [hfirst] at hlexemes <;>
        obtain ⟨hnone, -⟩ := lexeme_of_piece hlexemes rfl (by omega)
          (by simp [Lexeme.chars, hlen, hlength]) <;>
        cases hnone
    | some q =>
      have hmark : IsMark q.mark := hmarked q hafter
      have hpieces : ∀ b, IsPlain b →
          pieces d.mode (u ++ b :: v) = ps ++ .body b :: pieces (some q) v := by
        intro b hb
        rw [hcut b v hb.not_isMark, hafter, pieces_cons, Piece.first_inside hmark hb]
        rfl
      rw [hpieces c hc] at hlexemes
      obtain ⟨-, hrs⟩ := lexeme_of_piece hlexemes rfl (by omega)
        (by simp [Lexeme.chars, hlen, hlength])
      exact ⟨ps, .body, q, .inl rfl, hafter, hmark, hpieces, hrs.symm⟩
  | escape ps q hps hafter hmark hcut _ =>
    have hpieces := fun b (hb : IsPlain b) => hcut b v hb.not_isMark
    have hlen := congrArg List.length hps
    rw [List.length_append, List.length_singleton] at hlen
    have hspelled : ((ps.flatMap Piece.lexemes ++ [Lexeme.body '\\']).flatMap Lexeme.chars).length =
        u.length := by
      rw [List.flatMap_append, flatMap_chars_flatMap_lexemes, List.length_append, ← hlen]
      rfl
    have hback : (ps.flatMap Piece.lexemes ++ [.body '\\']) ++ Lexeme.body c ::
        ((pieces (some q) v).flatMap Piece.lexemes ++ ends) = ls ++ .body c :: rs := by
      rw [← hlexemes, hpieces c hc, List.flatMap_append, List.flatMap_cons]
      simp only [Piece.lexemes, List.append_assoc, List.cons_append, List.nil_append]
    obtain ⟨-, hrs⟩ := eq_of_append_eq_append hback (by rw [hspelled, hlength])
      (by rw [hspelled, hlength]; exact Nat.lt_succ_self _)
    exact ⟨ps, .escape, q, .inr rfl, hafter, hmark, hpieces, hrs.symm⟩
  | comment ps text hps _ hcut _ =>
    have hlen := congrArg List.length hps
    rw [List.length_append] at hlen
    rw [hcut c v hc.not_isMark] at hlexemes
    obtain ⟨hnone, -⟩ := lexeme_of_piece hlexemes rfl (by omega)
      (by simp only [Lexeme.chars, List.length_append, List.length_cons]; omega)
    cases hnone

theorem lexemes_indentTokens (row column : Nat) (front : List Char) :
    lexemes (indentTokens row column front) = front.map .code := by
  induction front generalizing column with
  | nil => rfl
  | cons c front ih => exact congrArg (Lexeme.code c :: ·) (ih (column + 1))

/-- Where no logical line is open, a line begins with its indentation. -/
theorem State.lexemes_of_draft_eq_none {s : State} (hnone : s.draft = none) (row : Nat)
    (line : List Char) :
    ∃ front, line = front ++ (Indent.measure line).2.2 ∧
      ∀ text, lexemes (tokens s.mode ⟨row, 0⟩ (line ++ text)) = front.map .code ++
        lexemes (tokens .code ⟨row, (Indent.measure line).2.1⟩
          ((Indent.measure line).2.2 ++ text)) := by
  obtain ⟨front, hfront, hcolumn, hindents⟩ := Indent.measure_append line
  refine ⟨front, hfront, fun text => ?_⟩
  have hmode : s.mode = .code := by
    rw [State.mode, hnone]
    rfl
  have hindent := tokens_indent row 0 hindents ((Indent.measure line).2.2 ++ text)
  rw [Nat.zero_add, ← hcolumn] at hindent
  conv_lhs => rw [hfront]
  rw [hmode, List.append_assoc, hindent, lexemes, List.map_append, ← lexemes, ← lexemes,
    lexemes_indentTokens]

/-- The tokens of the beginning of a line are the indentation, and the rest is read on where the
code of the line begins. -/
theorem State.lexemes_of_enter? {s : State} {row : Nat} {u : List Char} {e : Entry}
    (h : s.enter? row u = some e) : ∃ front, u = front ++ e.code ∧ e.place.line = row ∧
      ∀ text, lexemes (tokens s.mode ⟨row, 0⟩ (u ++ text)) = front.map .code ++
        lexemes (tokens (.behind e.draft.string none) e.place (e.code ++ text)) := by
  cases hd : s.draft with
  | some d =>
    rw [enter?_of_draft hd] at h
    cases h
    refine ⟨[], rfl, rfl, fun text => ?_⟩
    rw [State.mode, hd]
    rfl
  | none =>
    obtain ⟨w, column, c, rest, hmeasure, -, rfl⟩ := (enter?_eq_some_iff hd).1 h
    obtain ⟨front, hu, hlexemes⟩ := lexemes_of_draft_eq_none hd row u
    rw [hmeasure] at hu hlexemes
    exact ⟨front, hu, rfl, hlexemes⟩

/-- A character in a string stands where a line has code. -/
theorem State.exists_enter? {s : State} {row : Nat} {u v tail : List Char} {c : Char}
    (hc : IsPlain c) (hline : '\n' ∉ u ++ c :: v) (htail : ∀ b ∈ tail.head?, b = '\n')
    {ls rs : List Lexeme}
    (hlexemes : lexemes (tokens s.mode ⟨row, 0⟩ (u ++ (c :: v ++ tail))) = ls ++ .body c :: rs)
    (hspell : ls.flatMap Lexeme.chars = u) : ∃ e, s.enter? row u = some e := by
  cases hd : s.draft with
  | some d => exact ⟨_, enter?_of_draft hd⟩
  | none =>
    obtain ⟨front, hu, hcut⟩ := lexemes_of_draft_eq_none hd row u
    rcases hmeasure : Indent.measure u with ⟨w, column, rest⟩
    rw [hmeasure] at hu hcut
    rw [hcut] at hlexemes
    have hfront : ((front.map Lexeme.code).flatMap Lexeme.chars).length = front.length := by
      simp [List.flatMap_map, Lexeme.chars]
    -- Behind an indentation the character is code or in a comment, unless code comes before it.
    have hbegins : ∀ l ms, lexemes (tokens .code ⟨row, column⟩ (rest ++ (c :: v ++ tail))) =
        l :: ms → u.length < front.length + l.chars.length → l = .body c := by
      intro l ms hl hlt
      rw [hl] at hlexemes
      refine (eq_of_append_eq_append hlexemes ?_ ?_).1
      · rw [hfront, hspell, hu, List.length_append]
        exact Nat.le_add_right _ _
      · rw [hfront, hspell]
        exact hlt
    have hquote : ¬(c = '"' ∨ c = '\'') := hc.not_isMark
    cases rest with
    | nil =>
      rw [List.append_nil] at hu
      by_cases hhash : c = '#'
      · have h := hbegins (.comment (c :: (v ++ tail).takeWhile (· != '\n'))) _
          (by rw [List.nil_append, List.cons_append, tokens, if_pos hhash]; rfl)
          (by simp [hu, Lexeme.chars])
        cases h
      · have h := hbegins (.code c) _
          (by rw [List.nil_append, List.cons_append, tokens, if_neg hhash, if_neg hquote,
            if_neg hc.2.2.2.1]; rfl) (by simp [hu, Lexeme.chars])
        cases h
    | cons a rest =>
      by_cases ha : a = '#'
      · have hrest : '\n' ∉ rest ++ c :: v := by
          intro hmem
          refine hline ?_
          rw [hu, List.append_assoc, List.cons_append]
          exact List.mem_append_right _ (.tail _ hmem)
        have htake := (takeWhile_append_of_newline hrest htail).1
        rw [List.append_assoc] at htake
        have h := hbegins (.comment (a :: (rest ++ c :: v))) _
          (by rw [List.cons_append, tokens, if_pos ha, htake]; rfl)
          (by simp [hu, Lexeme.chars])
        cases h
      · exact ⟨_, (enter?_eq_some_iff hd).2 ⟨w, column, a, rest, hmeasure, ha, rfl⟩⟩

theorem exists_lexemes_behind {as ms ls rs : List Lexeme} {u : List Char} {c : Char}
    (h : as ++ ms = ls ++ .body c :: rs)
    (hspell : ls.flatMap Lexeme.chars = as.flatMap Lexeme.chars ++ u) :
    ∃ ls', ms = ls' ++ .body c :: rs ∧ ls'.flatMap Lexeme.chars = u := by
  rcases List.append_eq_append_iff.1 h with ⟨mid, rfl, hms⟩ | ⟨mid, rfl, hms⟩
  · rw [List.flatMap_append] at hspell
    exact ⟨mid, hms, List.append_cancel_left hspell⟩
  · rw [List.flatMap_append, List.append_assoc] at hspell
    have hnil := List.append_eq_nil_iff.1 (List.self_eq_append_right.1 hspell)
    cases mid with
    | nil => exact ⟨[], hms.symm, hnil.2.symm⟩
    | cons l mid =>
      obtain ⟨rfl, -⟩ := List.cons.inj hms
      cases hnil.1

/-- The line with the character, read with another one in its place. -/
theorem State.alike_readLine {s : State} (hs : s.IsMarked) (row : Nat) {u v tail rest : List Char}
    {c c' : Char} (hc : IsPlain c) (hc' : IsPlain c') (hwidth : Text.units16 c = Text.units16 c')
    (hline : '\n' ∉ u ++ c :: v) (htail : tail = '\n' :: rest ∨ tail = [] ∧ rest = [])
    {ls rs : List Lexeme}
    (hlexemes : lexemes (tokens s.mode ⟨row, 0⟩ (u ++ (c :: v ++ tail))) = ls ++ .body c :: rs)
    (hspell : ls.flatMap Lexeme.chars = u) (hcloses : Lexeme.Closes rs) :
    (s.readLine row (u ++ c :: v)).Alike (s.readLine row (u ++ c' :: v)) (row + 1) rest := by
  have hhead : ∀ b ∈ tail.head?, b = '\n' := by
    rcases htail with rfl | ⟨rfl, -⟩ <;> simp
  obtain ⟨⟨t, before, place, code⟩, he⟩ := exists_enter? hc hline hhead hlexemes hspell
  obtain ⟨front, hu, hplace, hcut⟩ := lexemes_of_enter? he
  dsimp only at hu hplace hcut
  have hcode : '\n' ∉ code ++ c :: v := by
    intro hmem
    rw [hu, List.append_assoc] at hline
    exact hline (List.mem_append_right _ hmem)
  rw [hcut] at hlexemes
  have hfront : (front.map Lexeme.code).flatMap Lexeme.chars = front := by
    simp [List.flatMap_map, Lexeme.chars]
  obtain ⟨ls', hlexemes, hspell⟩ := exists_lexemes_behind (u := code) hlexemes
    (by rw [hspell, hu, hfront])
  rw [← List.append_assoc] at hlexemes
  obtain ⟨ps, form, q, hform, hmode, hmark, hpieces, rfl⟩ := exists_form (hs.enter? he) place
    t.events hc hcode hhead hlexemes hspell
  have hlast : ∀ b, (form b).isLast = false := by
    rcases hform with rfl | rfl <;> exact fun _ => rfl
  -- What has been read before the character is the same.
  rcases hbefore : before.readAll place t.events ps with ⟨d, pos, events⟩
  have hdmode : d.mode = some q := by
    have h := before.mode_readAll place t.events ps
    rwa [hbefore, hmode] at h
  obtain ⟨o, ho, rfl⟩ := Option.map_eq_some_iff.1 hdmode
  have hevent : ∀ b, d.event? pos (form b) = none := by
    rcases hform with rfl | rfl <;> exact fun _ => rfl
  have hread : ∀ b, IsPlain b → s.readLine row (u ++ b :: v) =
      State.readPieces { t with events } (d.read pos (form b)) ((form b).next pos)
        (pieces (some o.quote) v) := by
    intro b hb
    rw [readLine_append_of_enter? he, t.readCode_cut (hpieces b hb) (hlast b) hbefore, hevent]
    rfl
  have hnext : (form c').next pos = (form c).next pos := by
    rcases hform with rfl | rfl <;>
      simp [Piece.next, Piece.chars, hwidth]
  have hstring : (d.read pos (form c)).string = some o := by
    rw [Draft.string_read, ← ho]
    rcases hform with rfl | rfl <;> rfl
  have hsame : (d.read pos (form c)).SameButStop (d.read pos (form c')) := by
    rcases hform with rfl | rfl
    · exact d.sameButStop_read_body pos c c'
    · rw [Draft.SameButStop, d.read_escape pos hwidth]
  rw [hpieces c hc, Draft.readAll_append, hbefore, Draft.readAll_cons, hevent,
    Mode.behind_getLast?_append_cons _ (hlast c)] at hcloses
  have halike := State.alike_readPieces { t with events } hsame hstring hmark
    ((form c).next pos) _ rfl htail hcloses
  rw [hread c hc, hread c' hc', hnext, ← hplace]
  exact halike

/-- The tokens of whole lines, and those of the text behind them. -/
theorem State.exists_tokens_unlines (s : State) (row : Nat) {lines : List (List Char)}
    (hlines : ∀ line ∈ lines, '\n' ∉ line) :
    ∃ ts, ∀ text, tokens s.mode ⟨row, 0⟩ (Text.unlines lines ++ text) =
      ts ++ tokens (s.readLines row lines).mode ⟨row + lines.length, 0⟩ text := by
  induction lines generalizing s row with
  | nil => exact ⟨[], fun _ => rfl⟩
  | cons line lines ih =>
    obtain ⟨hline, hlines⟩ := List.forall_mem_cons.1 hlines
    obtain ⟨ts, -, hfirst⟩ := s.tokens_readLine row hline
    obtain ⟨us, hrest⟩ := ih (s.readLine row line) (row + 1) hlines
    refine ⟨ts ++ us, fun text => ?_⟩
    have hrow : row + 1 + lines.length = row + (line :: lines).length := by
      rw [List.length_cons]
      omega
    rw [Text.unlines_cons, List.append_assoc, List.cons_append, hfirst, hrest, State.readLines,
      hrow, List.append_assoc]

/-- The character between the two texts is in the body of a string, and the string is closed. -/
def InClosedString (x : List Char) (c : Char) (y : List Char) : Prop :=
  ∃ ls rs, lexemes (tokenize (Text.joinBreaks (x ++ c :: y))) = ls ++ .body c :: rs ∧
    ls.flatMap Lexeme.chars = Text.joinBreaks x ∧ Lexeme.Closes rs

/-- Two texts that differ in a character of a string have the same events. -/
theorem scan_replace_body {x y : List Char} {c c' : Char} (hc : IsPlain c) (hc' : IsPlain c')
    (hwidth : Text.units16 c = Text.units16 c') (h : InClosedString x c y) :
    scan (Text.lines (x ++ c' :: y)) = scan (Text.lines (x ++ c :: y)) := by
  obtain ⟨ls, rs, hlexemes, hspell, hcloses⟩ := h
  have hnil : '\n' ∉ ([] : List Char) := List.not_mem_nil
  obtain ⟨pre, u, hx, hlinesx⟩ := Text.exists_linesFrom_append hnil x
  obtain ⟨v, post, hy, -, hlinesy⟩ := Text.exists_linesFrom_cons y
  obtain ⟨tail, rest, hjoin, hspells, htail⟩ := hy.exists_tail
  have hlines : ∀ b, IsPlain b → Text.lines (x ++ b :: y) = pre ++ (u ++ b :: v) :: post := by
    intro b hb
    rw [Text.lines, hlinesx, hlinesy b _ hb.2.2.2.1 hb.2.2.2.2, List.reverse_reverse]
  have hnewline : ∀ line ∈ pre ++ (u ++ c :: v) :: post, '\n' ∉ line := by
    rw [← hlines c hc]
    exact fun line => Text.newline_not_mem_of_mem_lines
  obtain ⟨hpre, hnewline⟩ := List.forall_mem_append.1 hnewline
  obtain ⟨hline, hpost⟩ := List.forall_mem_cons.1 hnewline
  -- Up to the line with the character the two texts are one.
  obtain ⟨ts, htokens⟩ := State.initial.exists_tokens_unlines 0 hpre
  have hcode : State.initial.mode = .code := rfl
  simp only [hcode] at htokens
  have hpreceding := flatMap_chars_lexemes .code ⟨0, 0⟩ (Text.unlines pre ++ [])
  rw [htokens, lexemes, List.map_append, ← lexemes, ← lexemes, List.flatMap_append,
    flatMap_chars_lexemes, List.append_nil, List.append_nil] at hpreceding
  have htext : Text.joinBreaks (x ++ c :: y) =
      Text.unlines pre ++ (u ++ (c :: v ++ tail)) := by
    have hhead : (c :: y).head? ≠ some '\n' := fun h => hc.2.2.2.1 (Option.some.inj h)
    have hcons : Text.joinBreaks (c :: y) = c :: Text.joinBreaks y := by
      refine Text.joinBreaks.eq_2 c y ?_
      intro _ h
      exact absurd h hc.2.2.2.2
    rw [Text.joinBreaks_append hhead, hcons, hjoin]
    rw [List.reverse_nil, List.nil_append] at hx
    rw [hx]
    simp only [List.append_assoc, List.cons_append]
  rw [htext, tokenize, htokens, lexemes, List.map_append, ← lexemes, ← lexemes] at hlexemes
  obtain ⟨ls', hlexemes, hspell⟩ := exists_lexemes_behind (u := u) hlexemes
    (by rw [hspell, hpreceding, ← hx]; rfl)
  have halike := State.alike_readLine (State.isMarked_readLines pre) (0 + pre.length) hc hc' hwidth
    hline htail hlexemes hspell hcloses
  have hscan : ∀ line, scan (pre ++ line :: post) =
      (((State.initial.readLines 0 pre).readLine (0 + pre.length) line).readLines
        (0 + pre.length + 1) post).finish := by
    intro line
    rw [scan, State.readLines_append, State.readLines]
  rw [hlines c hc, hlines c' hc', hscan, hscan]
  exact (halike.finish_readLines hpost hspells).symm

end Layout

/-- Two contents that differ in one character in the body of a string that is closed, which is as
wide in the one as in the other and has no part in delimiters, escapes and ends of lines in either,
are parsed to the same statements and the same reports. -/
theorem parse_replace_body {content content' : ByteArray} {x y : List Char} {c c' : Char}
    (hcontent : decodeText content = x ++ c :: y) (hcontent' : decodeText content' = x ++ c' :: y)
    (hc : Layout.IsPlain c) (hc' : Layout.IsPlain c') (hwidth : Text.units16 c = Text.units16 c')
    (h : Layout.InClosedString x c y) (options : Options) :
    parse content' options = parse content options := by
  rw [parse, parse, hcontent, hcontent', parseText, parseText,
    Layout.scan_replace_body hc hc' hwidth h]

/-- A string on two lines with a semicolon in it. -/
def twoLineString : ByteArray := "s = '''a;\n)'''; t = 1\n".toUTF8

/-- The same with a number sign, which would begin a comment outside strings. -/
def hashedString : ByteArray := "s = '''a#\n)'''; t = 1\n".toUTF8

theorem parse_hashedString :
    decodeText twoLineString = "s = '''a".toList ++ ';' :: "\n)'''; t = 1\n".toList ∧
      decodeText hashedString = "s = '''a".toList ++ '#' :: "\n)'''; t = 1\n".toList ∧
      Layout.InClosedString "s = '''a".toList ';' "\n)'''; t = 1\n".toList ∧
      (parse twoLineString .standard).outline.statements.map Statement.range =
        [⟨⟨0, 0⟩, ⟨1, 11⟩⟩, ⟨⟨0, 0⟩, ⟨1, 11⟩⟩] ∧
      ∀ options, parse hashedString options = parse twoLineString options := by
  have hplain : decodeText twoLineString = "s = '''a".toList ++ ';' :: "\n)'''; t = 1\n".toList := by
    decide +kernel
  have hhashed : decodeText hashedString = "s = '''a".toList ++ '#' :: "\n)'''; t = 1\n".toList := by
    decide +kernel
  have hinside : Layout.InClosedString "s = '''a".toList ';' "\n)'''; t = 1\n".toList := by
    refine ⟨"s = ".toList.map .code ++ [.opening ⟨'\'', true⟩, .body 'a'],
      .body '\n' :: .body ')' :: .closing ⟨'\'', true⟩ :: "; t = 1".toList.map .code ++ [.lineEnd],
      by decide +kernel, by decide +kernel, .body _ (.body _ (.closing _ _))⟩
  exact ⟨hplain, hhashed, hinside, by decide +kernel,
    parse_replace_body hplain hhashed (by decide) (by decide) rfl hinside⟩

end Reparse
