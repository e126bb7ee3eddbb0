import Reparse.Proofs.Layout.Tokenized

/-!
A line cut between two of its characters. The pieces before the cut are the same whatever stands
behind it, unless that begins with a quote; only a piece that the cut goes through is made from both
sides. So two lines with a common beginning are read alike up to where they part, in the same
logical line and from the same column on.
-/

namespace Reparse.Layout

/-- The characters that delimit strings. -/
def IsMark (c : Char) : Prop :=
  c = '"' ∨ c = '\''

instance : DecidablePred IsMark := fun c =>
  inferInstanceAs (Decidable (c = '"' ∨ c = '\''))

/-- The string that is open, if one is, has a delimiter as strings have them. -/
def Marked (mode : Option Quote) : Prop :=
  ∀ q, mode = some q → IsMark q.mark

theorem marked_none : Marked none :=
  fun _ h => nomatch h

namespace Piece

theorem marked_after {mode : Option Quote} {c : Char} {cs : List Char} {p : Piece}
    (h : Marked mode) (hp : first mode c cs = p) : Marked (p.after mode) := by
  intro q hq
  cases p with
  | opening q' =>
    cases hq
    exact mark_of_opening hp
  | closing q' => cases hq
  | _ => exact h q hq

/-- A piece that is not the last one of a text is the same in a longer one, unless a quote is added
that could complete a delimiter. -/
theorem first_append {mode : Option Quote} (hmode : Marked mode) {a : Char} {cs : List Char}
    (hlast : (first mode a cs).isLast = false) {c : Char} (hc : ¬IsMark c) (v : List Char) :
    first mode a (cs ++ c :: v) = first mode a cs := by
  have htripled : ∀ b, IsMark b → tripled b (cs ++ c :: v) = tripled b cs := by
    intro b hb
    refine tripled_append cs ?_
    rintro d ⟨⟩ rfl
    exact hc hb
  cases mode with
  | none =>
    simp only [first, firstOutside] at hlast ⊢
    by_cases hhash : a = '#'
    · simp [hhash, isLast] at hlast
    by_cases hback : a = '\\' ∧ cs.isEmpty
    · simp [hback.1, hback.2, isLast] at hlast
    have hback' : ¬(a = '\\' ∧ (cs ++ c :: v).isEmpty) := by simp
    by_cases hquote : a = '"' ∨ a = '\''
    · simp only [if_neg hhash, if_neg hback, if_neg hback', if_pos hquote, htripled a hquote]
    · simp only [if_neg hhash, if_neg hback, if_neg hback', if_neg hquote]
  | some q =>
    simp only [first, firstInside] at hlast ⊢
    by_cases hback : a = '\\'
    · cases cs with
      | nil => simp [hback, isLast] at hlast
      | cons d cs => simp only [if_pos hback, List.cons_append]
    · by_cases hmark : a = q.mark
      · have hquote : IsMark a := hmark ▸ hmode q rfl
        simp only [if_neg hback, htripled a hquote]
      · simp only [if_neg hback, hmark, false_and]

end Piece

/-- The ways in which a text can be cut behind `u`. -/
inductive Cut (mode : Option Quote) (u : List Char) : Prop
  /-- Between two pieces. A backslash outside strings continues the line only at its end. -/
  | between (ps : List Piece) : ps.flatMap Piece.chars = u → (∀ p ∈ ps, p.isLast = false) →
    Marked (ps.foldl Piece.after mode) →
    (∀ c v, ¬IsMark c →
      pieces mode (u ++ c :: v) = ps ++ pieces (ps.foldl Piece.after mode) (c :: v)) →
    (pieces mode u).foldl Piece.after mode = ps.foldl Piece.after mode →
    (u.getLast? ≠ some '\\' → pieces mode u = ps) → Cut mode u
  /-- Between a backslash in a string and the character that it takes with it. -/
  | escape (ps : List Piece) (q : Quote) : ps.flatMap Piece.chars ++ ['\\'] = u →
    ps.foldl Piece.after mode = some q → IsMark q.mark →
    (∀ c v, ¬IsMark c → pieces mode (u ++ c :: v) = ps ++ .escape c :: pieces (some q) v) →
    pieces mode u = ps ++ [.escapedBreak] → Cut mode u
  /-- Within a comment. -/
  | comment (ps : List Piece) (text : List Char) : ps.flatMap Piece.chars ++ text = u →
    text ≠ [] →
    (∀ c v, ¬IsMark c → pieces mode (u ++ c :: v) = ps ++ [.comment (text ++ c :: v)]) →
    pieces mode u = ps ++ [.comment text] → Cut mode u

namespace Cut

/-- A text that is cut behind its first piece can be cut in the same way as what is left of it. -/
theorem cons {mode : Option Quote} (hmode : Marked mode) {a : Char} {cs rest : List Char}
    {p : Piece} (hp : Piece.first mode a cs = p) (hchars : p.chars ++ rest = a :: cs)
    (hlast : p.isLast = false) (h : Cut (p.after mode) rest) : Cut mode (a :: cs) := by
  have hpos : 0 < p.chars.length := hp ▸ Piece.length_chars_first_pos mode a cs
  -- Behind the first piece the text goes on with what is left of it.
  have hcons : ∀ w, Piece.first mode a (cs ++ w) = p →
      pieces mode (a :: cs ++ w) = p :: pieces (p.after mode) (rest ++ w) := by
    intro w hw
    have hdrop := Piece.chars_first_append_drop mode a (cs ++ w)
    rw [hw, ← List.cons_append, ← hchars, List.append_assoc] at hdrop
    rw [List.cons_append, pieces_cons, hw, List.append_cancel_left hdrop]
  have hbehind : ∀ c v, ¬IsMark c → pieces mode (a :: cs ++ c :: v) =
      p :: pieces (p.after mode) (rest ++ c :: v) := by
    intro c v hc
    exact hcons _ ((Piece.first_append hmode (hp ▸ hlast) hc v).trans hp)
  have hwhole : pieces mode (a :: cs) = p :: pieces (p.after mode) rest := by
    have h := hcons []
    rw [List.append_nil, List.append_nil, List.append_nil] at h
    exact h hp
  cases h with
  | between ps hps hgoes hmarked hcut hafter hend =>
    refine .between (p :: ps) ?_ (List.forall_mem_cons.2 ⟨hlast, hgoes⟩) hmarked ?_ ?_ ?_
    · rw [List.flatMap_cons, hps, hchars]
    · intro c v hc
      rw [hbehind c v hc, hcut c v hc]
      rfl
    · rw [hwhole]
      exact hafter
    · intro hback
      rw [hwhole, hend]
      intro hrest
      rw [← hchars, List.getLast?_append, hrest] at hback
      exact hback rfl
  | escape ps q hps hafter hmark hcut hend =>
    refine .escape (p :: ps) q ?_ hafter hmark ?_ ?_
    · rw [List.flatMap_cons, List.append_assoc, hps, hchars]
    · intro c v hc
      rw [hbehind c v hc, hcut c v hc]
      rfl
    · rw [hwhole, hend]
      rfl
  | comment ps text hps htext hcut hend =>
    refine .comment (p :: ps) text ?_ htext ?_ ?_
    · rw [List.flatMap_cons, List.append_assoc, hps, hchars]
    · intro c v hc
      rw [hbehind c v hc, hcut c v hc]
      rfl
    · rw [hwhole, hend]
      rfl

end Cut

/-- Every text can be cut behind it. -/
theorem pieces_cut {mode : Option Quote} (hmode : Marked mode) (u : List Char) : Cut mode u := by
  induction mode, u using pieces_induction with
  | nil mode => exact .between [] rfl nofun hmode (fun _ _ _ => rfl) rfl fun _ => rfl
  | cons mode c cs p rest hp hchars hlast ih =>
    cases hp' : p.isLast with
    | false => exact (ih (Piece.marked_after hmode hp)).cons hmode hp hchars hp'
    | true =>
      -- Only a comment, a backslash in a string and one outside strings are the last of their line.
      have hrest := hlast hp'
      rw [hrest, List.append_nil] at hchars
      cases mode with
      | none =>
        by_cases hhash : c = '#'
        · subst hhash
          refine .comment [] ('#' :: cs) rfl (List.cons_ne_nil _ _) (fun d v _ => ?_) ?_ <;>
            simp [pieces_cons, Piece.first, Piece.firstOutside, Piece.chars]
        · by_cases hback : c = '\\' ∧ cs.isEmpty
          · obtain ⟨rfl, hcs⟩ := hback
            obtain rfl := List.isEmpty_iff.1 hcs
            refine .between [.code '\\'] rfl (by simp [Piece.isLast]) marked_none (fun d v _ => ?_)
              rfl fun h => absurd rfl h
            simp [pieces_cons, Piece.first, Piece.firstOutside, Piece.chars, Piece.after]
          · simp only [Piece.first, Piece.firstOutside, if_neg hhash, if_neg hback] at hp
            rw [← hp] at hp'
            split at hp' <;> cases hp'
      | some q =>
        by_cases hback : c = '\\'
        · subst hback
          cases cs with
          | nil =>
            refine .escape [] q rfl rfl (hmode q rfl) (fun d v _ => ?_) ?_ <;>
              simp [pieces_cons, Piece.first, Piece.firstInside, Piece.chars, Piece.after]
          | cons d cs =>
            rw [← hp] at hp'
            cases hp'
        · simp only [Piece.first, Piece.firstInside, if_neg hback] at hp
          rw [← hp] at hp'
          split at hp' <;> cases hp'

/-! ## The reader before and behind the cut -/

namespace Draft

variable (d : Draft) (pos : Position) (events : List Event)

theorem readAll_append (ps qs : List Piece) :
    d.readAll pos events (ps ++ qs) =
      (d.readAll pos events ps).1.readAll (d.readAll pos events ps).2.1
        (d.readAll pos events ps).2.2 qs := by
  induction ps generalizing d pos events with
  | nil => rfl
  | cons p ps ih => rw [List.cons_append, readAll_cons, readAll_cons, ih]

theorem mode_readAll (ps : List Piece) :
    (d.readAll pos events ps).1.mode = ps.foldl Piece.after d.mode := by
  induction ps generalizing d pos events with
  | nil => rfl
  | cons p ps ih => rw [readAll_cons, ih, mode_read, List.foldl_cons]

end Draft

theorem Mode.behind_getLast?_append_cons (string : Option OpenString) {p : Piece}
    (h : p.isLast = false) (ps qs : List Piece) :
    Mode.behind string (ps ++ p :: qs).getLast? = Mode.behind string qs.getLast? := by
  rw [← behind_getLast?_cons string h qs]
  cases qs with
  | nil => rw [List.getLast?_concat, List.getLast?_singleton]
  | cons q qs => rw [List.getLast?_append_cons]

namespace State

/-- How a line ends depends on its last piece only if nothing can stand behind that. -/
theorem endLine_getLast?_append_cons (s : State) (d : Draft) (pos : Position) {p : Piece}
    (hp : p.isLast = false) (ps qs : List Piece) :
    s.endLine d pos (ps ++ p :: qs).getLast? = s.endLine d pos qs.getLast? := by
  cases qs with
  | cons q qs => rw [List.getLast?_append_cons, List.getLast?_cons_cons]
  | nil =>
    have hbreak : (some p != some .escapedBreak) = true := bne_iff_ne.2 (by rintro ⟨⟩; cases hp)
    have hcontinued : (some p != some .continuation) = true :=
      bne_iff_ne.2 (by rintro ⟨⟩; cases hp)
    have hnone : ∀ q : Piece, (none != some q) = true := fun _ => rfl
    rw [List.getLast?_concat, List.getLast?_nil]
    simp only [State.endLine, hbreak, hcontinued, hnone]

/-- A line that is read up to a piece, that piece, and the rest of the line. -/
theorem readCode_cut (s : State) {d d₀ : Draft} {pos pos₀ : Position} {line : List Char}
    {ps qs : List Piece} {p : Piece} {events : List Event}
    (hpieces : pieces d.mode line = ps ++ p :: qs) (hp : p.isLast = false)
    (hbefore : d.readAll pos s.events ps = (d₀, pos₀, events)) :
    s.readCode d pos line =
      State.readPieces { s with events := (d₀.event? pos₀ p).toList ++ events } (d₀.read pos₀ p)
        (p.next pos₀) qs := by
  rw [readCode_eq, hpieces, Draft.readAll_append, hbefore, Draft.readAll_cons,
    endLine_getLast?_append_cons _ _ _ hp]
  rfl

end State

theorem marked_foldl_pieces {mode : Option Quote} (h : Marked mode) (line : List Char) :
    Marked ((pieces mode line).foldl Piece.after mode) := by
  induction mode, line using pieces_induction with
  | nil mode => exact h
  | cons mode c cs p rest hp hchars hlast ih => exact ih (Piece.marked_after h hp)

namespace State

/-- The unfinished logical line has the delimiters that strings have. -/
def IsMarked (s : State) : Prop :=
  ∀ d, s.draft = some d → Marked d.mode

variable {s : State}

theorem IsMarked.readCode {d : Draft} (h : Marked d.mode) (pos : Position) (line : List Char) :
    (s.readCode d pos line).IsMarked := by
  have hread := marked_foldl_pieces h line
  rw [← d.mode_readAll pos s.events] at hread
  rw [readCode_eq, endLine_eq]
  dsimp only
  split
  · rintro d' ⟨⟩
  · rintro d' ⟨⟩ q hq
    unfold Draft.breakLine at hq
    split at hq
    · cases hq
    · exact hread q hq

theorem IsMarked.readLine (h : s.IsMarked) (row : Nat) (line : List Char) :
    (s.readLine row line).IsMarked := by
  rcases s.readLine_cases row line with ⟨d, hd, hread⟩ | ⟨hnone, ⟨-, hread⟩ | ⟨-, hread⟩⟩
  · exact hread ▸ .readCode (h d hd) _ _
  · rw [hread]
    intro d hd
    exact absurd (hd.symm.trans hnone) (by simp)
  · rw [hread]
    exact .readCode (d := .begin _ _) marked_none _ _

theorem isMarked_readLines (lines : List (List Char)) :
    (initial.readLines 0 lines).IsMarked :=
  readLines_induction (motive := fun _ s => s.IsMarked)
    (fun row _ line _ h => h.readLine row line) nofun

end State

/-- Where the code of a line begins: the reader there, the logical line that the code belongs to,
the place, and the code. -/
structure Entry where
  state : State
  draft : Draft
  place : Position
  code : List Char

namespace Indent

theorem measureFrom_append_of_cons {w w' : Indent} {n n' : Nat} {line rest : List Char} {c : Char}
    (h : measureFrom w n line = (w', n', c :: rest)) (more : List Char) :
    measureFrom w n (line ++ more) = (w', n', c :: (rest ++ more)) := by
  induction line generalizing w n with
  | nil => cases h
  | cons d line ih =>
    rw [measureFrom] at h
    rw [List.cons_append, measureFrom]
    cases hext : w.extend? d with
    | some w'' =>
      rw [hext] at h
      exact ih h
    | none =>
      rw [hext] at h
      cases h
      rfl

end Indent

namespace State

/-- Where the reader begins to read the code of a line, if the line has any. -/
def enter? (s : State) (row : Nat) (line : List Char) : Option Entry :=
  match s.draft with
  | some d => some ⟨s, d, ⟨row, 0⟩, line⟩
  | none =>
    let (w, column, rest) := Indent.measure line
    let pos : Position := ⟨row, column⟩
    match rest with
    | [] => none
    | c :: _ =>
      if c = '#' then none
      else some ⟨s.indent w ⟨⟨row, 0⟩, pos⟩, .begin pos w.column, pos, rest⟩

variable {s : State} {row : Nat} {line : List Char} {e : Entry}

theorem enter?_of_draft {d : Draft} (hd : s.draft = some d) :
    s.enter? row line = some ⟨s, d, ⟨row, 0⟩, line⟩ := by
  rw [enter?, hd]

/-- Where no logical line is open, the code of a line begins with a logical line, behind an
indentation. -/
theorem enter?_eq_some_iff (hnone : s.draft = none) :
    s.enter? row line = some e ↔ ∃ w column c rest, Indent.measure line = (w, column, c :: rest) ∧
      c ≠ '#' ∧ e = ⟨s.indent w ⟨⟨row, 0⟩, ⟨row, column⟩⟩, .begin ⟨row, column⟩ w.column,
        ⟨row, column⟩, c :: rest⟩ := by
  simp only [enter?, hnone]
  generalize Indent.measure line = measured
  obtain ⟨w, column, rest⟩ := measured
  cases rest with
  | nil => simp
  | cons c rest =>
    by_cases hc : c = '#'
    · simp [hc]
    · simp only [if_neg hc, Option.some.injEq, Prod.mk.injEq]
      refine ⟨fun h => ⟨w, column, c, rest, ⟨rfl, rfl, rfl⟩, hc, h.symm⟩, ?_⟩
      rintro ⟨w, column, c, rest, ⟨rfl, rfl, ⟨⟩⟩, -, h⟩
      exact h.symm

theorem enter?_eq_none_iff :
    s.enter? row line = none ↔ s.draft = none ∧ isCodeLine line = false := by
  cases hd : s.draft with
  | some d => simp [enter?_of_draft hd]
  | none =>
    simp only [enter?, hd, isCodeLine]
    generalize (Indent.measure line).2.2 = rest
    cases rest with
    | nil => simp
    | cons c rest => by_cases hc : c = '#' <;> simp [hc]

theorem readLine_of_enter? (h : s.enter? row line = some e) :
    s.readLine row line = e.state.readCode e.draft e.place e.code := by
  cases hd : s.draft with
  | some d =>
    rw [enter?_of_draft hd] at h
    cases h
    rw [readLine, hd]
  | none =>
    obtain ⟨w, column, c, rest, hmeasure, hc, rfl⟩ := (enter?_eq_some_iff hd).1 h
    simp only [readLine, hd, hmeasure, if_neg hc]

/-- Where the code of a line begins does not depend on what is behind its beginning. -/
theorem enter?_append (h : s.enter? row line = some e) (more : List Char) :
    s.enter? row (line ++ more) = some { e with code := e.code ++ more } := by
  cases hd : s.draft with
  | some d =>
    rw [enter?_of_draft hd] at h ⊢
    cases h
    rfl
  | none =>
    obtain ⟨w, column, c, rest, hmeasure, hc, rfl⟩ := (enter?_eq_some_iff hd).1 h
    exact (enter?_eq_some_iff hd).2 ⟨w, column, c, rest ++ more,
      Indent.measureFrom_append_of_cons hmeasure more, hc, rfl⟩

theorem readLine_append_of_enter? (h : s.enter? row line = some e) (more : List Char) :
    s.readLine row (line ++ more) = e.state.readCode e.draft e.place (e.code ++ more) := by
  rw [readLine_of_enter? (enter?_append h more)]

/-- The delimiters of strings are so in the logical line that the code of a line belongs to. -/
theorem IsMarked.enter? (hs : s.IsMarked) (h : s.enter? row line = some e) :
    Marked e.draft.mode := by
  cases hd : s.draft with
  | some d =>
    rw [enter?_of_draft hd] at h
    cases h
    exact hs d hd
  | none =>
    obtain ⟨w, column, c, rest, -, -, rfl⟩ := (enter?_eq_some_iff hd).1 h
    exact marked_none

end State

end Reparse.Layout
