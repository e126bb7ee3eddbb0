import Reparse.Proofs.Layout.BlockReports
import Reparse.Proofs.Layout.Cut
import Reparse.Proofs.Statement.Targets
import Reparse.Proofs.Text.Cutting

/-!
Two counts of brackets. While the reader puts a logical line together it keeps a stack of the
brackets that are open; once the line is finished, its statements are told apart by a depth that is
counted anew along the text, in which strings and comments are left out and blanks stand for ends of
lines. For every character of a logical line a note is taken of how many brackets are on the stack
when the reader comes to it. Counting along the notes gives these numbers again.
-/

namespace Reparse.Layout

/-- A character of a logical line, and how many brackets are open when the reader comes to it. -/
structure Note where
  char : Char
  opened : Nat
deriving DecidableEq, Repr

/-! ## Counting along notes -/

/-- Counted from the given depth on, the depth at every character is the number of brackets that are
open there. -/
def CountsFrom (depth : Nat) (ns : List Note) : Prop :=
  ∀ front n back, ns = front ++ n :: back →
    n.opened = (front.map Note.char).foldl Bracket.depth depth

theorem countsFrom_nil (depth : Nat) : CountsFrom depth [] := by
  intro front n back h
  simp at h

theorem countsFrom_cons_iff {depth : Nat} {n : Note} {ns : List Note} :
    CountsFrom depth (n :: ns) ↔ n.opened = depth ∧ CountsFrom (Bracket.depth depth n.char) ns := by
  constructor
  · intro h
    refine ⟨h [] n ns rfl, ?_⟩
    intro front m back hns
    exact h (n :: front) m back (congrArg (n :: ·) hns)
  · rintro ⟨hn, hns⟩ front m back h
    cases front with
    | nil =>
      obtain ⟨rfl, -⟩ := List.cons.inj h
      exact hn
    | cons m' front =>
      obtain ⟨rfl, hrest⟩ := List.cons.inj h
      exact hns front m back hrest

theorem countsFrom_append_iff {depth : Nat} {ns ns' : List Note} :
    CountsFrom depth (ns ++ ns') ↔
      CountsFrom depth ns ∧ CountsFrom ((ns.map Note.char).foldl Bracket.depth depth) ns' := by
  induction ns generalizing depth with
  | nil => exact (and_iff_right (countsFrom_nil depth)).symm
  | cons n ns ih =>
    rw [List.cons_append, countsFrom_cons_iff, countsFrom_cons_iff, ih, and_assoc]
    rfl

section

variable {cs : List Char} (h : ∀ c ∈ cs, Bracket.isBracket c = false) (depth : Nat)

include h

theorem foldl_depth_of_not_isBracket : cs.foldl Bracket.depth depth = depth :=
  (Bracket.Nested.of_forall (p := fun _ => true) fun c hc => ⟨rfl, h c hc⟩).foldl_depth depth

/-- Text without brackets leaves the depth. -/
theorem countsFrom_of_not_isBracket : CountsFrom depth (cs.map (⟨·, depth⟩)) := by
  induction cs with
  | nil => exact countsFrom_nil depth
  | cons c cs ih =>
    obtain ⟨hc, hcs⟩ := List.forall_mem_cons.1 h
    refine countsFrom_cons_iff.2 ⟨rfl, ?_⟩
    rw [Bracket.Nested.depth_of_not_isBracket hc]
    exact ih hcs

end

/-! ## Pieces -/

namespace Draft

/-- The notes of what a piece leaves in the text. -/
def note (d : Draft) (p : Piece) : List Note :=
  p.trace.map (⟨·, d.brackets.length⟩)

/-- The notes of pieces that are read from a place on. -/
def notes (d : Draft) (pos : Position) : List Piece → List Note
  | [] => []
  | p :: ps => d.note p ++ (d.read pos p).notes (p.next pos) ps

/-- A closer takes one from the stack, and from the depth, if there is one to take. -/
theorem length_stack (brackets : List OpenBracket) (pos : Position) (c : Char) :
    (stack brackets pos c).length = Bracket.depth brackets.length c := by
  unfold stack Bracket.depth
  split
  · rfl
  split
  · exact List.length_tail
  · rfl

/-- The notes are those of the text that has been read. Counted along them, the depth has always
been what the stack said, and is so now. -/
structure Follows (ns : List Note) (d : Draft) : Prop where
  text : ns.map Note.char = d.text.reverse
  counts : CountsFrom 0 ns
  length : d.brackets.length = (ns.map Note.char).foldl Bracket.depth 0

theorem follows_begin (start : Position) (indent : Nat) : Follows [] (.begin start indent) where
  text := rfl
  counts := countsFrom_nil 0
  length := rfl

namespace Follows

variable {ns : List Note} {d d' : Draft} {cs : List Char}

/-- More text is read, with the stack as it is in front of it. -/
theorem append (h : Follows ns d) (htext : d'.text.reverse = d.text.reverse ++ cs)
    (hcounts : CountsFrom d.brackets.length (cs.map (⟨·, d.brackets.length⟩)))
    (hlength : d'.brackets.length = cs.foldl Bracket.depth d.brackets.length) :
    Follows (ns ++ cs.map (⟨·, d.brackets.length⟩)) d' := by
  have hchars : (cs.map (Note.mk · d.brackets.length)).map Note.char = cs := by
    rw [List.map_map]
    exact List.map_id cs
  refine ⟨?_, ?_, ?_⟩
  · rw [List.map_append, hchars, h.text, htext]
  · rw [countsFrom_append_iff, ← h.length]
    exact ⟨h.counts, hcounts⟩
  · rw [List.map_append, hchars, List.foldl_append, ← h.length, hlength]

/-- Text without brackets leaves the stack. -/
theorem append_of_not_isBracket (h : Follows ns d) (cs : List Char)
    (hcs : ∀ c ∈ cs, Bracket.isBracket c = false)
    (htext : d'.text.reverse = d.text.reverse ++ cs) (hbrackets : d'.brackets = d.brackets) :
    Follows (ns ++ cs.map (⟨·, d.brackets.length⟩)) d' := by
  refine h.append htext (countsFrom_of_not_isBracket hcs _) ?_
  rw [hbrackets, foldl_depth_of_not_isBracket hcs]

theorem read (h : Follows ns d) (pos : Position) {p : Piece}
    (hmark : ∀ q, p = .opening q ∨ p = .closing q → IsMark q.mark) :
    Follows (ns ++ d.note p) (d.read pos p) := by
  have hquote : ∀ q, p = .opening q ∨ p = .closing q →
      ∀ c ∈ q.chars, Bracket.isBracket c = false := by
    intro q hp c hc
    rw [List.eq_of_mem_replicate hc]
    rcases hmark q hp with hq | hq <;> rw [hq] <;> rfl
  have htext := d.text_read pos p
  have hbrackets := d.brackets_read pos p
  cases p with
  | code c =>
    refine h.append htext (countsFrom_cons_iff.2 ⟨rfl, countsFrom_nil _⟩) ?_
    rw [hbrackets]
    exact length_stack d.brackets pos c
  | opening q => exact h.append_of_not_isBracket q.chars (hquote q (.inl rfl)) htext hbrackets
  | closing q => exact h.append_of_not_isBracket q.chars (hquote q (.inr rfl)) htext hbrackets
  | _ => exact h.append_of_not_isBracket [] nofun htext hbrackets

/-- The notes of the code of a line follow the reader through it. -/
theorem readAll (h : Follows ns d) (hmarked : Marked d.mode) (pos : Position)
    (events : List Event) (line : List Char) :
    Follows (ns ++ d.notes pos (pieces d.mode line))
      (d.readAll pos events (pieces d.mode line)).1 := by
  generalize hmode : d.mode = mode at hmarked
  induction mode, line using pieces_induction generalizing ns d pos events with
  | nil mode =>
    rw [Draft.notes, List.append_nil]
    exact h
  | cons mode c cs p rest hp hchars _ ih =>
    have hmark : ∀ q, p = .opening q ∨ p = .closing q → IsMark q.mark := by
      rintro q (rfl | rfl)
      · exact Piece.mark_of_opening hp
      · exact hmarked q (Piece.eq_of_closing hp)
    rw [Draft.notes, ← List.append_assoc, readAll_cons]
    exact ih (h.read pos hmark) _ _ (by rw [d.mode_read, hmode]) (Piece.marked_after hmarked hp)

/-- The end of a line inside a logical line is a blank in its text. -/
theorem join (h : Follows ns d) :
    Follows (ns ++ [⟨' ', d.brackets.length⟩]) { d with text := ' ' :: d.text } :=
  h.append_of_not_isBracket [' '] (List.forall_mem_singleton.2 rfl) List.reverse_cons rfl

theorem of_same (h : Follows ns d) (htext : d'.text = d.text)
    (hbrackets : d'.brackets = d.brackets) : Follows ns d' where
  text := by rw [h.text, htext]
  counts := h.counts
  length := by rw [hbrackets, h.length]

end Follows

end Draft

/-! ## The reader with its notes -/

/-- The reader, the notes of the unfinished logical line, and those of the finished ones, newest
first. -/
structure Noted where
  state : State
  unfinished : List Note
  done : List (List Note)

/-- The notes are those of the text of the logical line, and counted along them, the depth at every
character is the number of brackets that were open there. -/
structure LogicalLine.Describes (l : LogicalLine) (ns : List Note) : Prop where
  text : ns.map Note.char = l.text
  counts : CountsFrom 0 ns

namespace Noted

def initial : Noted :=
  ⟨.initial, [], []⟩

/-- A physical line ends, with these notes of its logical line and these brackets on the stack. If
the logical line goes on behind it, a note is taken of the blank that joins them. -/
def endLine (n : Noted) (state : State) (ns : List Note) (stack : List OpenBracket) : Noted :=
  match state.draft with
  | none => ⟨state, [], ns :: n.done⟩
  | some _ => ⟨state, ns ++ [⟨' ', stack.length⟩], n.done⟩

/-- Reads a physical line, and takes notes of its code piece by piece. -/
def readLine (n : Noted) (row : Nat) (line : List Char) : Noted :=
  let state := n.state.readLine row line
  match n.state.enter? row line with
  | none => { n with state }
  | some e =>
    let ps := pieces e.draft.mode e.code
    n.endLine state (n.unfinished ++ e.draft.notes e.place ps)
      (e.draft.readAll e.place e.state.events ps).1.brackets

def readLines (n : Noted) (row : Nat) : List (List Char) → Noted
  | [] => n
  | line :: lines => (n.readLine row line).readLines (row + 1) lines

/-- The text ends, and with it the logical line that is still unfinished. -/
def finish (n : Noted) : List (List Note) :=
  match n.state.draft with
  | none => n.done.reverse
  | some _ => (n.unfinished :: n.done).reverse

/-- Taking notes does not touch the reader. -/
theorem state_readLine (n : Noted) (row : Nat) (line : List Char) :
    (n.readLine row line).state = n.state.readLine row line := by
  have hend : ∀ (state : State) ns stack, (n.endLine state ns stack).state = state := by
    intro state ns stack
    unfold endLine
    split <;> rfl
  unfold readLine
  dsimp only
  split
  · rfl
  · exact hend _ _ _

theorem state_readLines (n : Noted) (row : Nat) (lines : List (List Char)) :
    (n.readLines row lines).state = n.state.readLines row lines := by
  induction lines generalizing n row with
  | nil => rfl
  | cons line lines ih => rw [readLines, ih, state_readLine, State.readLines]

/-- The notes describe the logical lines so far, finished and unfinished. -/
structure Faithful (n : Noted) : Prop where
  marked : n.state.IsMarked
  between : n.state.draft = none → n.unfinished = []
  within : ∀ d, n.state.draft = some d → Draft.Follows n.unfinished d
  done : List.Forall₂ LogicalLine.Describes n.state.lines n.done

theorem faithful_initial : initial.Faithful where
  marked := nofun
  between := fun _ => rfl
  within := nofun
  done := .nil

namespace Faithful

variable {n : Noted} {row : Nat} {line : List Char}

/-- The code of a line begins where the notes have come to. -/
theorem enter? (h : n.Faithful) {e : Entry} (he : n.state.enter? row line = some e) :
    Draft.Follows n.unfinished e.draft ∧ e.state.lines = n.state.lines := by
  cases hd : n.state.draft with
  | some d =>
    rw [State.enter?_of_draft hd] at he
    cases he
    exact ⟨h.within d hd, rfl⟩
  | none =>
    obtain ⟨w, column, c, rest, -, -, rfl⟩ := (State.enter?_eq_some_iff hd).1 he
    rw [h.between hd]
    exact ⟨Draft.follows_begin _ _, State.lines_indent _ _ _⟩

/-- A line without code leaves the notes as they are. -/
theorem skip (h : n.Faithful) (he : n.state.enter? row line = none) :
    Faithful { n with state := n.state.readLine row line } := by
  obtain ⟨hnone, hcode⟩ := State.enter?_eq_none_iff.1 he
  rw [State.readLine_of_not_isCodeLine hnone hcode]
  refine ⟨h.marked, h.between, h.within, ?_⟩
  rw [State.lines_comment?]
  exact h.done

theorem endLine (h : n.Faithful) {s : State} (hlines : s.lines = n.state.lines)
    {ns : List Note} {d : Draft} (hfollows : Draft.Follows ns d) (pos : Position)
    (last : Option Piece) (hmarked : (s.endLine d pos last).IsMarked) :
    (n.endLine (s.endLine d pos last) ns d.brackets).Faithful := by
  obtain ⟨d', -, htext, hbrackets, ⟨hdraft, hend⟩ | ⟨hdraft, hend⟩⟩ := s.endLine_cases d pos last
  · have hdone := hfollows.of_same htext hbrackets
    rw [Noted.endLine, hdraft]
    refine ⟨hmarked, fun _ => rfl, ?_, ?_⟩
    · intro d hd
      exact absurd (hdraft.symm.trans hd) (by simp)
    · rw [hend, hlines]
      exact .cons ⟨hdone.text, hdone.counts⟩ h.done
  · rw [Noted.endLine, hdraft]
    refine ⟨hmarked, ?_, ?_, ?_⟩
    · intro hnone
      exact absurd (hdraft.symm.trans hnone) (by simp)
    · intro d₂ hd₂
      obtain rfl := Option.some.inj (hdraft.symm.trans hd₂)
      rw [← hbrackets]
      exact (hfollows.of_same htext hbrackets).join
    · rw [hend, hlines]
      exact h.done

theorem readLine (h : n.Faithful) (row : Nat) (line : List Char) :
    (n.readLine row line).Faithful := by
  have hmarked := h.marked.readLine row line
  unfold Noted.readLine
  cases he : n.state.enter? row line with
  | none => exact h.skip he
  | some e =>
    obtain ⟨hfollows, hlines⟩ := h.enter? he
    have hread := hfollows.readAll (h.marked.enter? he) e.place e.state.events e.code
    rw [State.readLine_of_enter? he, State.readCode_eq] at hmarked ⊢
    refine h.endLine ?_ hread _ _ hmarked
    exact (e.draft.filterMap_line?_readAll e.place e.state.events _).trans hlines

theorem readLines (h : n.Faithful) (row : Nat) (lines : List (List Char)) :
    (n.readLines row lines).Faithful := by
  induction lines generalizing n row with
  | nil => exact h
  | cons line lines ih => exact ih (h.readLine row line) (row + 1)

theorem finish (h : n.Faithful) :
    List.Forall₂ LogicalLine.Describes (n.state.finish.filterMap Event.line?) n.finish := by
  rw [State.line?_finish]
  unfold Noted.finish
  cases hd : n.state.draft with
  | none => exact List.rel_reverse h.done
  | some d =>
    have hfollows := h.within d hd
    exact List.rel_reverse (.cons ⟨hfollows.text, hfollows.counts⟩ h.done)

end Faithful

end Noted

/-- The notes of the logical lines of a text. -/
def lineNotes (text : List Char) : List (List Note) :=
  (Noted.initial.readLines 0 (Text.lines text)).finish

/-! ## Statements -/

/-- A semicolon to which the reader comes while no bracket is open. -/
def Note.isCut (n : Note) : Bool :=
  n.char == ';' && n.opened == 0

/-- A text is cut where its notes are, and counting goes on from zero behind each cut. -/
theorem CountsFrom.splitOnP {depth : Nat} {ns : List Note} (h : CountsFrom depth ns) :
    ∃ block blocks, ns.splitOnP Note.isCut = block :: blocks ∧ CountsFrom depth block ∧
      (∀ b ∈ blocks, CountsFrom 0 b) ∧ ∀ segment done,
        segmentsFrom depth segment done (ns.map Note.char) =
          done.reverse ++ (segment.reverse ++ block.map Note.char) ::
            blocks.map (List.map Note.char) := by
  induction ns generalizing depth with
  | nil =>
    refine ⟨[], [], List.splitOnP_nil, h, nofun, ?_⟩
    intro segment done
    rw [List.map_nil, segmentsFrom, List.reverse_cons, List.append_nil]
    rfl
  | cons n ns ih =>
    obtain ⟨hn, hns⟩ := countsFrom_cons_iff.1 h
    obtain ⟨block, blocks, hsplit, hblock, hblocks, hsegments⟩ := ih hns
    rw [List.splitOnP_cons_eq_if_modifyHead, hsplit]
    simp only [List.map_cons, segmentsFrom]
    by_cases hcut : n.char = ';' ∧ depth = 0
    · obtain ⟨hchar, rfl⟩ := hcut
      have hcut : n.isCut = true := by simp [Note.isCut, hchar, hn]
      rw [hchar] at hblock hsegments
      refine ⟨[], block :: blocks, if_pos hcut, countsFrom_nil 0,
        List.forall_mem_cons.2 ⟨hblock, hblocks⟩, ?_⟩
      intro segment done
      rw [if_pos ⟨hchar, rfl⟩]
      refine (hsegments [] (segment.reverse :: done)).trans ?_
      simp
    · have hcut' : ¬n.isCut = true := by simpa [Note.isCut, hn] using hcut
      refine ⟨n :: block, blocks, if_neg hcut', countsFrom_cons_iff.2 ⟨hn, hblock⟩, hblocks, ?_⟩
      intro segment done
      rw [if_neg hcut, hsegments]
      simp

theorem isBracket_eq_false_of_isBlank {c : Char} (h : Text.isBlank c = true) :
    Bracket.isBracket c = false := by
  cases hc : Bracket.isBracket c with
  | false => rfl
  | true =>
    simp only [Bracket.isBracket, Bracket.isOpener, Bracket.isCloser, Bool.or_eq_true,
      beq_iff_eq] at hc
    rcases hc with ((rfl | rfl) | rfl) | (rfl | rfl) | rfl <;> cases h

/-- Blanks at the ends of a text do not matter to the count. -/
theorem CountsFrom.exists_trim {ns : List Note} (h : CountsFrom 0 ns) :
    ∃ front segment back, ns = front ++ (segment ++ back) ∧
      segment.map Note.char = Text.trim (ns.map Note.char) ∧ CountsFrom 0 segment := by
  obtain ⟨front, back, hns, hfront, -⟩ := Text.exists_append_trim (ns.map Note.char)
  obtain ⟨front', rest, rfl, hfront', hrest⟩ := List.map_eq_append_iff.1 hns
  obtain ⟨segment, back', rfl, hsegment, -⟩ := List.map_eq_append_iff.1 hrest
  refine ⟨front', segment, back', rfl, hsegment, ?_⟩
  have hcounts := (countsFrom_append_iff.1 h).2
  have hzero : front.foldl Bracket.depth 0 = 0 :=
    foldl_depth_of_not_isBracket (fun c hc => isBracket_eq_false_of_isBlank (hfront c hc)) 0
  rw [hfront', hzero] at hcounts
  exact (countsFrom_append_iff.1 hcounts).1

/-- The brackets of a logical line are counted alike twice. At every character of its text, the
depth that is counted along the text is the number of brackets on the stack of the reader when it
came to that character, and for a blank between two lines, when it came to the end of the first. So
the line is cut at the semicolons to which the reader came with an empty stack, and at no others.
Within each segment, the depth that is counted along the segment alone, as it is for assignments, is
again the number of brackets on the stack. -/
theorem depth_eq_opened (text : List Char) :
    List.Forall₂ (fun l ns =>
      ns.map Note.char = l.text ∧ CountsFrom 0 ns ∧
      segments l.text = ((ns.splitOnP Note.isCut).map fun block =>
        Text.trim (block.map Note.char)).filter (fun s => !s.isEmpty) ∧
      ∀ block ∈ ns.splitOnP Note.isCut, ∃ front segment back, block = front ++ (segment ++ back) ∧
        segment.map Note.char = Text.trim (block.map Note.char) ∧ CountsFrom 0 segment)
      (logicalLines text) (lineNotes text) := by
  have hfaithful := Noted.faithful_initial.readLines 0 (Text.lines text)
  have hdescribes := hfaithful.finish
  rw [Noted.state_readLines] at hdescribes
  refine hdescribes.imp ?_
  rintro l ns ⟨htext, hcounts⟩
  obtain ⟨block, blocks, hsplit, hblock, hblocks, hsegments⟩ := hcounts.splitOnP
  rw [hsplit]
  refine ⟨htext, hcounts, ?_, ?_⟩
  · rw [segments, ← htext, hsegments]
    simp [Function.comp_def]
  · intro b hb
    refine CountsFrom.exists_trim ?_
    rcases List.mem_cons.1 hb with rfl | hb
    · exact hblock
    · exact hblocks b hb

/-- The bracket in the string is left out, the blank between the lines is inside a bracket, and the
last bracket closes nothing. Only the semicolon inside the bracket does not cut. -/
example : (lineNotes "x = ')'; (a;\n b)]; c".toList).map (List.map fun n => (n.char, n.opened)) =
    ["x = ''; (".toList.map (·, 0) ++
      ("a;  b)".toList.map (·, 1) ++ "]; c".toList.map (·, 0))] := by decide +kernel

end Reparse.Layout
