import Mathlib.Data.List.Nodup
import Reparse.Proofs.Layout.Coverage
import Reparse.Proofs.Layout.Levels

/-!
The indentations from logical line to logical line. Each line settles in the stack that the one
before it has left, and of a line whose indentation does not fit the stack there is a report. Main
statement: the two faults that the stack decides are reported at exactly those beginnings at which
the stack in front of them shows them; a column once begun at is met again by every later line at
it, as long as no line between stands further out.
-/

namespace Reparse

namespace Layout

/-- The beginning of a logical line: where its indentation is, how far it measures, whether a header
awaits its block there, and the indentations that are open before and after, innermost first and
down to the ground. -/
structure Beginning where
  range : Range
  indent : Indent
  awaited : Bool
  before : List Indent
  after : List Indent
deriving DecidableEq, Repr

namespace Beginning

/-- The line is further in than all that is open, and no header awaits its block. -/
def IsUnexpected (b : Beginning) : Prop :=
  (State.level b.before).column < b.indent.column ∧ b.awaited = false

/-- The line is less far in than the innermost indentation that is open, and its column is that of
none. -/
def IsUnmet (b : Beginning) : Prop :=
  b.indent.column < (State.level b.before).column ∧ b.indent.column ∉ b.before.map Indent.column

instance (b : Beginning) : Decidable b.IsUnexpected :=
  inferInstanceAs (Decidable (_ ∧ _))

instance (b : Beginning) : Decidable b.IsUnmet :=
  inferInstanceAs (Decidable (_ ∧ _))

/-- Of the two faults that a stack can show, the beginning has this one. -/
def shows (b : Beginning) : Fault → Bool
  | .unexpectedIndent => decide b.IsUnexpected
  | .unindentMismatch => decide b.IsUnmet
  | _ => false

/-- A line whose column is that of an open indentation shows no fault. -/
theorem shows_of_mem {b : Beginning} (h : Grounded b.before)
    (hmem : b.indent.column ∈ b.before.map Indent.column) (f : Fault) : b.shows f = false := by
  obtain ⟨t, ht, hcolumn⟩ := List.mem_map.1 hmem
  have hle := h.le_level ht
  cases f with
  | unexpectedIndent =>
    apply decide_eq_false
    rintro ⟨hlt, -⟩
    omega
  | unindentMismatch =>
    apply decide_eq_false
    rintro ⟨-, hnot⟩
    exact hnot hmem
  | _ => rfl

end Beginning

/-- Each logical line finds the stack that the one before it has left, the first one the given
stack, and settles in it. -/
def Settles : List Indent → List Beginning → Prop
  | _, [] => True
  | stack, b :: bs => b.before = stack ∧ b.after = settle b.indent stack ∧ Settles b.after bs

namespace Settles

variable {stack : List Indent} {b : Beginning} {bs front back : List Beginning}

/-- Before and after every logical line the stack is grounded, and after it the line's column is
at the top. -/
theorem grounded (h : Settles stack bs) (hstack : Grounded stack) :
    ∀ b ∈ bs, Grounded b.before ∧ Grounded b.after ∧
      b.after.head?.map Indent.column = some b.indent.column := by
  induction bs generalizing stack with
  | nil => exact nofun
  | cons b bs ih =>
    obtain ⟨rfl, hafter, hrest⟩ := h
    obtain ⟨hgrounded, htop, -⟩ := hstack.settle b.indent
    rw [← hafter] at hgrounded htop
    exact List.forall_mem_cons.2 ⟨⟨hstack, hgrounded, htop⟩, ih hrest hgrounded⟩

/-- What follows some logical lines settles in the stack that they leave. -/
theorem drop (h : Settles stack (front ++ bs)) : ∃ stack', Settles stack' bs := by
  induction front generalizing stack with
  | nil => exact ⟨stack, h⟩
  | cons b front ih => exact ih h.2.2

/-- A column that is open stays open until a line stands further out. -/
theorem mem_before (h : Settles stack (front ++ b :: back)) (hstack : Grounded stack)
    {column : Nat} (hmem : column ∈ stack.map Indent.column)
    (hfront : ∀ m ∈ front, column ≤ m.indent.column) :
    column ∈ b.before.map Indent.column := by
  induction front generalizing stack with
  | nil =>
    obtain ⟨rfl, -, -⟩ := h
    exact hmem
  | cons m front ih =>
    obtain ⟨rfl, hafter, hrest⟩ := h
    obtain ⟨hle, hfront⟩ := List.forall_mem_cons.1 hfront
    obtain ⟨hgrounded, -, hstays⟩ := hstack.settle m.indent
    rw [← hafter] at hgrounded hstays
    refine ih hrest hgrounded ?_ hfront
    obtain ⟨t, ht, rfl⟩ := List.mem_map.1 hmem
    exact List.mem_map_of_mem (hstays t ht hle)

/-- A later line at the column of a line shows no fault, if no line between stands further out. -/
theorem shows_eq_false {b' : Beginning} {mid : List Beginning}
    (h : Settles stack (front ++ b :: (mid ++ b' :: back))) (hstack : Grounded stack)
    (hcolumn : b'.indent.column = b.indent.column)
    (hmid : ∀ m ∈ mid, b.indent.column ≤ m.indent.column) (f : Fault) : b'.shows f = false := by
  have hall := h.grounded hstack
  obtain ⟨-, hgrounded, htop⟩ := hall b (by simp)
  obtain ⟨hgrounded', -⟩ := hall b' (by simp)
  obtain ⟨stack', hbehind⟩ := h.drop
  have hmem : b.indent.column ∈ b.after.map Indent.column := by
    obtain ⟨t, ht, hcolumn⟩ := Option.map_eq_some_iff.1 htop
    rw [← hcolumn]
    exact List.mem_map_of_mem (List.mem_of_head? ht)
  have hmeets := mem_before hbehind.2.2 hgrounded hmem hmid
  rw [← hcolumn] at hmeets
  exact Beginning.shows_of_mem hgrounded' hmeets f

end Settles

/-! ## The two faults -/

/-- Where the event says that the fault is. -/
def Event.rangeOf? (f : Fault) : Event → Option Range
  | fault range g => if g = f then some range else none
  | _ => none

/-- The faults that the stack decides, whatever the code. -/
def Fault.ofStack : List Fault :=
  [.unexpectedIndent, .unindentMismatch]

theorem Event.rangeOf?_of_isOfCode {f : Fault} (hf : f ∈ Fault.ofStack) (e : Event)
    (he : e.isOfCode = true) : e.rangeOf? f = none := by
  cases e with
  | fault range g =>
    apply if_neg
    rintro rfl
    rcases List.mem_pair.1 hf with rfl | rfl <;> cases he
  | _ => rfl

namespace State

variable {s : State}

/-- Where the fault has been found so far, newest first. -/
def rangesOf (s : State) (f : Fault) : List Range :=
  s.events.filterMap (Event.rangeOf? f)

theorem rangesOf_emit (s : State) (range : Range) (f g : Fault) :
    (s.emit (.fault range g)).rangesOf f = (if g = f then [range] else []) ++ s.rangesOf f := by
  rw [rangesOf, emit, List.filterMap_cons, Event.rangeOf?]
  by_cases hg : g = f
  · rw [if_pos hg, if_pos hg]
    rfl
  · rw [if_neg hg, if_neg hg]
    rfl

theorem rangesOf_faultIf (s : State) (bad : Bool) (range : Range) (f g : Fault) :
    (s.faultIf bad range g).rangesOf f =
      (if bad ∧ g = f then [range] else []) ++ s.rangesOf f := by
  cases bad with
  | true => simpa [faultIf] using s.rangesOf_emit range f g
  | false => simp [faultIf]

theorem rangesOf_reportMissing (s : State) {f : Fault} (hf : f ≠ .missingBlock) :
    s.reportMissing.rangesOf f = s.rangesOf f := by
  unfold reportMissing
  split
  · rw [rangesOf_emit, if_neg (Ne.symm hf), List.nil_append]
  · rfl

/-- The beginning of a logical line at an indentation. -/
def begin (s : State) (w : Indent) (range : Range) : Beginning :=
  ⟨range, w, s.header.isSome, s.stack, (s.indent w range).stack⟩

theorem rangesOf_indentTo (s : State) {w : Indent} (hfurther : (level s.levels).column < w.column)
    (range : Range) {f : Fault} (hf : f ∈ Fault.ofStack) :
    (s.indentTo w range).rangesOf f =
      (if (s.begin w range).shows f then [range] else []) ++ s.rangesOf f := by
  have hlevel : (level s.stack).column < w.column := by
    rw [stack, level_append_ground]
    exact hfurther
  have hranges : (s.indentTo w range).rangesOf f =
      (if s.header.isNone ∧ .unexpectedIndent = f then [range] else []) ++ s.rangesOf f := by
    have hmixed : ¬Fault.mixedIndent = f := by
      rintro rfl
      revert hf
      decide
    refine (rangesOf_faultIf _ _ _ _ _).trans ?_
    rw [if_neg fun h => hmixed h.2, List.nil_append, rangesOf_faultIf]
  rw [hranges]
  congr 2
  rcases List.mem_pair.1 hf with rfl | rfl
  · simp [Beginning.shows, Beginning.IsUnexpected, begin, hlevel]
  · have hnot : ¬w.column < (level s.stack).column := Nat.lt_asymm hlevel
    simp [Beginning.shows, Beginning.IsUnmet, begin, hnot]

theorem rangesOf_dedentTo (h : Grounded s.stack) {w : Indent}
    (hnot : ¬(level s.levels).column < w.column) (range : Range) {f : Fault}
    (hf : f ∈ Fault.ofStack) :
    (s.dedentTo w range).rangesOf f =
      (if (s.begin w range).shows f then [range] else []) ++ s.rangesOf f := by
  have hlevel : ¬(level s.stack).column < w.column := by
    rw [stack, level_append_ground]
    exact hnot
  have hmeets : w.column = (level (s.levels.dropWhile fun t => w.column < t.column)).column ↔
      w.column ∈ s.stack.map Indent.column := by
    rw [← h.level_unwind_iff, stack, unwind_append_ground, level_append_ground]
  have hmissing : f ≠ .missingBlock ∧ ¬Fault.mixedIndent = f := by
    rcases List.mem_pair.1 hf with rfl | rfl <;> decide
  rw [dedentTo_eq]
  dsimp only
  rw [ite_not]
  by_cases hmem : w.column ∈ s.stack.map Indent.column
  · rw [if_pos (hmeets.2 hmem), Beginning.shows_of_mem h hmem]
    refine (rangesOf_faultIf _ _ _ _ _).trans ?_
    rw [if_neg fun h => hmissing.2 h.2, rangesOf_reportMissing s hmissing.1]
    rfl
  · rw [if_neg fun heq => hmem (hmeets.1 heq)]
    refine (rangesOf_emit _ _ _ _).trans ?_
    rw [rangesOf_reportMissing s hmissing.1]
    congr 2
    have hne : (level s.stack).column ≠ w.column := by
      intro heq
      exact hmem (heq ▸ List.mem_map_of_mem h.level_mem)
    have hlt : w.column < (level s.stack).column := by omega
    rcases List.mem_pair.1 hf with rfl | rfl
    · simp [Beginning.shows, Beginning.IsUnexpected, begin, hlevel]
    · simp [Beginning.shows, Beginning.IsUnmet, begin, hlt, hmem]

/-- The two faults of the stack are found where a logical line begins if the stack shows them. -/
theorem rangesOf_indent (h : Grounded s.stack) (w : Indent) (range : Range) {f : Fault}
    (hf : f ∈ Fault.ofStack) :
    (s.indent w range).rangesOf f =
      (if (s.begin w range).shows f then [range] else []) ++ s.rangesOf f := by
  unfold State.indent
  split
  · rename_i hfurther
    exact s.rangesOf_indentTo hfurther range hf
  · rename_i hnot
    exact rangesOf_dedentTo h hnot range hf

/-! ## From line to line -/

/-- The beginning of a logical line on the line, if one begins there. -/
def beginning? (s : State) (row : Nat) (line : List Char) : Option Beginning :=
  if s.draft = none ∧ isCodeLine line = true then
    some (s.begin (Indent.measure line).1 ⟨⟨row, 0⟩, ⟨row, (Indent.measure line).2.1⟩⟩)
  else none

theorem eq_begin_of_beginning? {row : Nat} {line : List Char} {b : Beginning}
    (h : s.beginning? row line = some b) :
    b = s.begin (Indent.measure line).1 ⟨⟨row, 0⟩, ⟨row, (Indent.measure line).2.1⟩⟩ :=
  (Option.some.inj (Option.ite_none_right_eq_some.1 h).2).symm

/-- What the reading of a line is, told by whether a logical line begins there. -/
theorem beginning?_cases (s : State) (row : Nat) (line : List Char) :
    s.beginning? row line = none ∧
        ((∃ d, s.draft = some d ∧ s.readLine row line = s.readCode d ⟨row, 0⟩ line) ∨
          s.readLine row line = { s with events := (comment? row line).toList ++ s.events }) ∨
      s.draft = none ∧
        s.beginning? row line =
          some (s.begin (Indent.measure line).1 ⟨⟨row, 0⟩, ⟨row, (Indent.measure line).2.1⟩⟩) ∧
        s.readLine row line =
          (s.indent (Indent.measure line).1
              ⟨⟨row, 0⟩, ⟨row, (Indent.measure line).2.1⟩⟩).readCode
            (.begin ⟨row, (Indent.measure line).2.1⟩ (Indent.measure line).1.column)
            ⟨row, (Indent.measure line).2.1⟩ (Indent.measure line).2.2 := by
  rcases s.readLine_cases row line with ⟨d, hd, hread⟩ | ⟨hnone, ⟨hblank, hread⟩ | ⟨hcode, hread⟩⟩
  · exact .inl ⟨if_neg (by simp [hd]), .inl ⟨d, hd, hread⟩⟩
  · exact .inl ⟨if_neg (by simp [hblank]), .inr hread⟩
  · exact .inr ⟨hnone, if_pos ⟨hnone, hcode⟩, hread⟩

/-- A line moves the stack only where a logical line begins. -/
theorem stack_readLine (s : State) (row : Nat) (line : List Char) :
    (s.readLine row line).stack =
      ((s.beginning? row line).map Beginning.after).getD s.stack := by
  rcases s.beginning?_cases row line with ⟨hno, ⟨d, -, hread⟩ | hread⟩ | ⟨-, hyes, hread⟩
  · rw [hno, hread, stack_readCode]
    rfl
  · rw [hno, hread]
    rfl
  · rw [hyes, hread, stack_readCode]
    rfl

theorem rangesOf_readCode (s : State) (d : Draft) (pos : Position) (line : List Char) {f : Fault}
    (hf : f ∈ Fault.ofStack) : (s.readCode d pos line).rangesOf f = s.rangesOf f :=
  (s.brought_readCode d pos line).filterMap_eq (Event.rangeOf?_of_isOfCode hf)

/-- A line has a fault of the stack only where a logical line begins that shows it. -/
theorem rangesOf_readLine (h : Grounded s.stack) (row : Nat) (line : List Char) {f : Fault}
    (hf : f ∈ Fault.ofStack) :
    (s.readLine row line).rangesOf f =
      ((s.beginning? row line).toList.filter (·.shows f)).map Beginning.range ++
        s.rangesOf f := by
  rcases s.beginning?_cases row line with ⟨hno, ⟨d, -, hread⟩ | hread⟩ | ⟨-, hyes, hread⟩
  · rw [hno, hread, rangesOf_readCode _ _ _ _ hf]
    rfl
  · rw [hno, hread]
    exact (s.brought_comment? row line).filterMap_eq (Event.rangeOf?_of_isOfCode hf)
  · rw [hyes, hread, rangesOf_readCode _ _ _ _ hf, rangesOf_indent h _ _ hf, Option.toList_some,
      List.filter_singleton]
    cases (s.begin _ _).shows f <;> rfl

/-- Where the logical lines begin, and how far in, newest first. -/
def heads (s : State) : List (Position × Nat) :=
  s.places.map fun p => (p.1.start, p.2)

theorem heads_readCode (s : State) (d : Draft) (pos : Position) (line : List Char) :
    (s.readCode d pos line).heads =
      (d.start, d.indent) :: s.lines.map fun l => (l.range.start, l.indent) := by
  rw [heads, places_readCode, List.map_cons, List.map_map]
  rfl

/-- A line adds a logical line where one begins. -/
theorem heads_readLine (s : State) (row : Nat) (line : List Char) :
    (s.readLine row line).heads =
      (s.beginning? row line).toList.map (fun b => (b.range.stop, b.indent.column)) ++ s.heads := by
  rcases s.beginning?_cases row line with ⟨hno, ⟨d, hd, hread⟩ | hread⟩ | ⟨hnone, hyes, hread⟩
  · rw [hno, hread, heads_readCode, heads, places, hd, List.map_map]
    rfl
  · rw [hno, hread, heads, places, lines_comment?]
    rfl
  · rw [hyes, hread, heads_readCode, lines_indent, heads, places, hnone, List.map_map]
    rfl

/-! ## The whole text -/

/-- The logical lines that begin on the lines, the first of which has the given number. -/
def beginnings (s : State) (row : Nat) : List (List Char) → List Beginning
  | [] => []
  | line :: lines =>
    (s.beginning? row line).toList ++ (s.readLine row line).beginnings (row + 1) lines

/-- The logical lines settle one after the other. -/
theorem settles_readLines (s : State) (row : Nat) (lines : List (List Char)) :
    Settles s.stack (s.beginnings row lines) := by
  induction lines generalizing s row with
  | nil => trivial
  | cons line lines ih =>
    have hrest := ih (s.readLine row line) (row + 1)
    rw [stack_readLine] at hrest
    rw [beginnings]
    cases hb : s.beginning? row line with
    | none =>
      rw [hb] at hrest
      exact hrest
    | some b =>
      rw [hb] at hrest
      rw [eq_begin_of_beginning? hb] at hrest ⊢
      exact ⟨rfl, s.stack_indent _ _, hrest⟩

/-- The reader ends with the logical lines that have begun. -/
theorem heads_readLines (s : State) (row : Nat) (lines : List (List Char)) :
    (s.readLines row lines).heads =
      ((s.beginnings row lines).map fun b => (b.range.stop, b.indent.column)).reverse ++
        s.heads := by
  induction lines generalizing s row with
  | nil => rfl
  | cons line lines ih =>
    rw [readLines, ih, heads_readLine, beginnings, List.map_append, List.reverse_append,
      List.append_assoc]
    cases s.beginning? row line <;> rfl

/-- The reader ends with the faults that the beginnings show. -/
theorem rangesOf_readLines (h : Grounded s.stack) (row : Nat) (lines : List (List Char)) {f : Fault}
    (hf : f ∈ Fault.ofStack) :
    (s.readLines row lines).rangesOf f =
      (((s.beginnings row lines).filter (·.shows f)).map Beginning.range).reverse ++
        s.rangesOf f := by
  induction lines generalizing s row with
  | nil => rfl
  | cons line lines ih =>
    rw [readLines, ih (grounded_readLine h row line), rangesOf_readLine h row line hf, beginnings,
      List.filter_append, List.map_append, List.reverse_append, List.append_assoc]
    cases s.beginning? row line with
    | none => rfl
    | some b =>
      rw [Option.toList_some, List.filter_singleton]
      cases b.shows f <;> rfl

/-- Logical lines begin one below the other. -/
theorem pairwise_beginnings (s : State) (row : Nat) (lines : List (List Char)) :
    (∀ b ∈ s.beginnings row lines, row ≤ b.range.start.line) ∧
      (s.beginnings row lines).Pairwise fun b b' => b.range.start.line < b'.range.start.line := by
  induction lines generalizing s row with
  | nil => exact ⟨nofun, .nil⟩
  | cons line lines ih =>
    obtain ⟨habove, hpairwise⟩ := ih (s.readLine row line) (row + 1)
    rw [beginnings]
    cases hb : s.beginning? row line with
    | none => exact ⟨fun b hb => Nat.le_of_lt (habove b hb), hpairwise⟩
    | some b =>
      have hrow : b.range.start.line = row := by rw [eq_begin_of_beginning? hb, begin]
      refine ⟨List.forall_mem_cons.2 ⟨by omega, fun b hb => Nat.le_of_lt (habove b hb)⟩, ?_⟩
      apply List.pairwise_cons.2
      refine ⟨?_, hpairwise⟩
      intro b' hb'
      have hbelow := habove b' hb'
      omega

/-- A fault of the stack is nothing that the end of the text can bring. -/
theorem filterMap_rangeOf?_finish (s : State) {f : Fault} (hf : f ∈ Fault.ofStack) :
    s.finish.filterMap (Event.rangeOf? f) = (s.rangesOf f).reverse := by
  have hmissing : f ≠ .missingBlock := by
    rintro rfl
    revert hf
    decide
  rw [finish_eq, List.filterMap_reverse]
  apply congrArg List.reverse
  exact (s.abandonOpen.rangesOf_reportMissing hmissing).trans
    (s.brought_abandonOpen.filterMap_eq (Event.rangeOf?_of_isOfCode hf))

end State

/-- The beginnings of the logical lines of a text. -/
def beginnings (text : List Char) : List Beginning :=
  State.initial.beginnings 0 (Text.lines text)

theorem settles_beginnings (text : List Char) : Settles [.ground] (beginnings text) :=
  State.initial.settles_readLines 0 (Text.lines text)

/-- Each logical line of the text has its beginning. -/
theorem map_beginnings (text : List Char) :
    ((beginnings text).map fun b => (b.range.stop, b.indent.column)) =
      (logicalLines text).map fun l => (l.range.start, l.indent) := by
  have hheads := State.initial.heads_readLines 0 (Text.lines text)
  have hnone : State.initial.heads = [] := rfl
  rw [hnone, List.append_nil, ← List.reverse_eq_iff] at hheads
  rw [beginnings, ← hheads, logicalLines, scan, State.line?_finish, List.map_reverse, State.heads,
    State.places, List.map_map]
  rfl

/-- The two faults of the stack are reported at the logical lines that show them. -/
theorem filter_isReportOf_beginnings (text : List Char) (options : Options) {f : Fault}
    (hf : f ∈ Fault.ofStack) :
    (diagnostics options (scan (Text.lines text))).filter (Diagnostic.isReportOf f) =
      if options.collect then
        ((beginnings text).filter (·.shows f)).map fun b => ⟨b.range, .error, .python, f.message⟩
      else [] := by
  have hfault : f ∈ Fault.distinguished ∧ f ≠ .mixedIndent ∧ .asyncUnsupported ≠ f := by
    rcases List.mem_pair.1 hf with rfl | rfl <;> decide
  obtain ⟨hdistinguished, hmixed, hasync⟩ := hfault
  have hevent : ∀ e : Event,
      (e.diagnostics options (finder options)).filter (Diagnostic.isReportOf f) =
        (e.rangeOf? f).toList.map fun range => ⟨range, .error, .python, f.message⟩ := by
    intro e
    rw [filter_isReportOf hdistinguished hmixed hasync]
    cases e with
    | fault range g =>
      dsimp only [Event.rangeOf?]
      by_cases hg : g = f
      · rw [if_pos hg, if_pos hg, hg]
        rfl
      · rw [if_neg hg, if_neg hg]
        rfl
    | _ => rfl
  have hranges : (scan (Text.lines text)).filterMap (Event.rangeOf? f) =
      ((beginnings text).filter (·.shows f)).map Beginning.range := by
    have hrun := State.rangesOf_readLines (s := .initial) .ground 0 (Text.lines text) hf
    have hnone : State.initial.rangesOf f = [] := rfl
    rw [scan, State.filterMap_rangeOf?_finish _ hf, hrun, hnone, List.append_nil,
      List.reverse_reverse]
    rfl
  rw [filter_diagnostics]
  split
  · simp only [hevent]
    rw [← List.map_flatMap, ← List.filterMap_eq_flatMap_toList, hranges, List.map_map]
    -- the beginnings stand one below the other, and so do their reports
    apply List.mergeSort_of_pairwise
    rw [List.pairwise_map]
    have hbelow := (State.pairwise_beginnings .initial 0 (Text.lines text)).2
    refine (hbelow.filter _).imp ?_
    intro b b' hlt
    exact Position.precedes_of_line_lt hlt
  · rfl

/-- A fault that a beginning does not show is not reported there. -/
theorem isReportOf_eq_false {text : List Char} {options : Options} {b : Beginning}
    (hb : b ∈ beginnings text) {f : Fault} (hf : f ∈ Fault.ofStack) (hshows : b.shows f = false)
    {d : Diagnostic} (hd : d ∈ diagnostics options (scan (Text.lines text)))
    (hrange : d.range = b.range) : d.isReportOf f = false := by
  by_contra hreport
  have hmem := List.mem_filter.2 ⟨hd, Bool.eq_true_of_not_eq_false hreport⟩
  rw [filter_isReportOf_beginnings text options hf] at hmem
  split at hmem
  · obtain ⟨b', hb', rfl⟩ := List.mem_map.1 hmem
    obtain ⟨hb', hshows'⟩ := List.mem_filter.1 hb'
    have hbelow := (State.pairwise_beginnings .initial 0 (Text.lines text)).2
    have hnodup : ((beginnings text).map Beginning.range).Nodup := by
      apply List.pairwise_map.2
      apply hbelow.imp
      intro x y hlt heq
      rw [heq] at hlt
      exact Nat.lt_irrefl _ hlt
    have heq : b' = b := List.inj_on_of_nodup_map hnodup hb' hb hrange
    rw [heq, hshows] at hshows'
    cases hshows'
  · cases hmem

end Layout

/-- Each logical line finds the stack of open indentations that the one before it has left, the
first one the ground alone, and settles in it. So after the beginning of each line the ground is at
the bottom, columns rise from it, and the line's own column is at the top. That a line meets no
outer indentation is reported exactly where its column is below the top of the stack and that of no
open indentation; and neither that nor that it is indented unexpectedly is reported of a line at the
column of an earlier one, unless a line between them stands further out. -/
theorem indentation_recovers (content : ByteArray) (options : Options) :
    ((Layout.beginnings (decodeText content)).map fun b => (b.range.stop, b.indent.column)) =
        (Layout.logicalLines (decodeText content)).map (fun l => (l.range.start, l.indent)) ∧
      Layout.Settles [.ground] (Layout.beginnings (decodeText content)) ∧
      (∀ b ∈ Layout.beginnings (decodeText content),
        b.after.getLast? = some .ground ∧
          b.after.Pairwise (fun inner outer => outer.column < inner.column) ∧
          b.after.head?.map Layout.Indent.column = some b.indent.column) ∧
      ((parse content options).diagnostics.filter (Diagnostic.isReportOf .unindentMismatch) =
        if options.collect then
          ((Layout.beginnings (decodeText content)).filter fun b => b.IsUnmet).map
            fun b => ⟨b.range, .error, .python, Fault.unindentMismatch.message⟩
        else []) ∧
      ∀ front b mid b' back,
        Layout.beginnings (decodeText content) = front ++ b :: (mid ++ b' :: back) →
        b'.indent.column = b.indent.column →
        (∀ m ∈ mid, b.indent.column ≤ m.indent.column) →
        ∀ d ∈ (parse content options).diagnostics, d.range = b'.range →
          d.isReportOf .unexpectedIndent = false ∧ d.isReportOf .unindentMismatch = false := by
  have hsettles := Layout.settles_beginnings (decodeText content)
  refine ⟨Layout.map_beginnings _, hsettles, ?_, ?_, ?_⟩
  · intro b hb
    obtain ⟨-, hgrounded, htop⟩ := hsettles.grounded .ground b hb
    exact ⟨hgrounded.bottom, hgrounded.rising, htop⟩
  · exact Layout.filter_isReportOf_beginnings _ options (by decide)
  · intro front b mid b' back heq hcolumn hmid d hd hrange
    have hb' : b' ∈ Layout.beginnings (decodeText content) := by simp [heq]
    rw [heq] at hsettles
    have hshows := hsettles.shows_eq_false .ground hcolumn hmid
    constructor
    · exact Layout.isReportOf_eq_false hb' (by decide) (hshows _) hd hrange
    · exact Layout.isReportOf_eq_false hb' (by decide) (hshows _) hd hrange

/-- The third line meets no outer indentation and the fourth is indented unexpectedly; the fifth is
at the column of the third again. -/
def unmetBlock : ByteArray := "if x:\n        a = 1\n    b = 2\n      c = 3\n    d = 4\n".toUTF8

/-- The column of the third line is opened where it is reported, and met by the fifth. -/
theorem unmetBlock_recovers :
    ((Layout.beginnings (decodeText unmetBlock)).map fun b => b.after.map Layout.Indent.column) =
        [[0], [8, 0], [4, 0], [6, 4, 0], [4, 0]] ∧
      (parse unmetBlock .standard).diagnostics.filter (Diagnostic.isReportOf .unindentMismatch) =
        [⟨⟨⟨2, 0⟩, ⟨2, 4⟩⟩, .error, .python, Fault.unindentMismatch.message⟩] ∧
      ∀ d ∈ (parse unmetBlock .standard).diagnostics, d.range = ⟨⟨4, 0⟩, ⟨4, 4⟩⟩ →
        d.isReportOf .unexpectedIndent = false ∧ d.isReportOf .unindentMismatch = false := by
  obtain ⟨-, -, -, hreported, hrecovers⟩ := indentation_recovers unmetBlock .standard
  have hbeginnings : Layout.beginnings (decodeText unmetBlock) =
      [⟨⟨⟨0, 0⟩, ⟨0, 0⟩⟩, ⟨0, 0⟩, false, [⟨0, 0⟩], [⟨0, 0⟩]⟩,
        ⟨⟨⟨1, 0⟩, ⟨1, 8⟩⟩, ⟨8, 8⟩, true, [⟨0, 0⟩], [⟨8, 8⟩, ⟨0, 0⟩]⟩] ++
      ⟨⟨⟨2, 0⟩, ⟨2, 4⟩⟩, ⟨4, 4⟩, false, [⟨8, 8⟩, ⟨0, 0⟩], [⟨4, 4⟩, ⟨0, 0⟩]⟩ ::
      ([⟨⟨⟨3, 0⟩, ⟨3, 6⟩⟩, ⟨6, 6⟩, false, [⟨4, 4⟩, ⟨0, 0⟩], [⟨6, 6⟩, ⟨4, 4⟩, ⟨0, 0⟩]⟩] ++
      ⟨⟨⟨4, 0⟩, ⟨4, 4⟩⟩, ⟨4, 4⟩, false, [⟨6, 6⟩, ⟨4, 4⟩, ⟨0, 0⟩], [⟨4, 4⟩, ⟨0, 0⟩]⟩ :: []) := by
    decide +kernel
  refine ⟨?_, ?_, ?_⟩
  · rw [hbeginnings]
    rfl
  · rw [hreported, hbeginnings]
    decide
  · exact hrecovers _ _ _ _ _ hbeginnings rfl (by decide)

end Reparse
