import Mathlib.Data.List.Infix
import Reparse.Proofs.Layout.Brackets
import Reparse.Proofs.Layout.Findings

/-!
What is reported of brackets. The brackets of a text are its bracket characters outside strings and
comments, as the tokens of the whole text have them. What the reader finds wrong with them line by
line is what matching with one stack finds: between two lines the stack is that of the logical line
that is open, and where none is open it is empty. So the reports decide whether the brackets are
well-nested.
-/

namespace Reparse

/-- The words that all reports of brackets have and no others. -/
def bracketWords : List String :=
  ["unmatched", "does not match opening parenthesis", "was never closed"]

namespace Fault

/-- The faults of brackets. -/
def isOfBrackets : Fault → Bool
  | unmatched _ | mismatched _ _ | neverClosed _ => true
  | _ => false

theorem infix_message {f : Fault} {word : String} (front : List Char) (middle : String)
    (back : List Char) (hword : word.toList <:+: middle.toList)
    (h : f.message.toList = front ++ middle.toList ++ back) : word.toList <:+: f.message.toList :=
  hword.trans ⟨front, back, h.symm⟩

theorem no_bracketWords :
    ∀ word ∈ bracketWords, ∀ f ∈ [unexpectedIndent, missingBlock, unindentMismatch, mixedIndent,
      unterminatedString, unterminatedTriple, asyncUnsupported],
      ¬word.toList <:+: f.message.toList := by
  decide +kernel

/-- The faults of brackets are told by their words. -/
theorem isOfBrackets_iff (f : Fault) :
    f.isOfBrackets = true ↔ ∃ word ∈ bracketWords, word.toList <:+: f.message.toList := by
  cases f with
  | unmatched closer =>
    have h : (unmatched closer).message = "unmatched '" ++ String.singleton closer ++ "'" := rfl
    refine iff_of_true rfl ⟨"unmatched", by decide, ?_⟩
    refine infix_message [] "unmatched '" (closer :: "'".toList) (by decide +kernel) ?_
    rw [h, String.toList_append, String.toList_append]
    simp
  | mismatched closer opener =>
    have h : (mismatched closer opener).message = "closing parenthesis '" ++ String.singleton closer
        ++ "' does not match opening parenthesis '" ++ String.singleton opener ++ "'" := rfl
    refine iff_of_true rfl ⟨"does not match opening parenthesis", by decide, ?_⟩
    refine infix_message ("closing parenthesis '".toList ++ [closer])
      "' does not match opening parenthesis '" (opener :: "'".toList) (by decide +kernel) ?_
    rw [h, String.toList_append, String.toList_append, String.toList_append, String.toList_append]
    simp
  | neverClosed opener =>
    have h : (neverClosed opener).message =
        "'" ++ String.singleton opener ++ "' was never closed" := rfl
    refine iff_of_true rfl ⟨"was never closed", by decide, ?_⟩
    refine infix_message ("'".toList ++ [opener]) "' was never closed" [] (by decide +kernel) ?_
    rw [h, String.toList_append, String.toList_append]
    simp
  | _ =>
    refine iff_of_false nofun ?_
    rintro ⟨word, hword, hinfix⟩
    exact no_bracketWords word hword _ (by simp) hinfix

end Fault

/-- The report says that something is wrong with a bracket. -/
def Diagnostic.isOfBrackets (d : Diagnostic) : Bool :=
  d.source == .python && bracketWords.any fun word => decide (word.toList <:+: d.message.toList)

namespace Layout

open Reparse.Bracket

/-- The bracket that a token is. -/
def Token.mark? (t : Token) : Option Mark :=
  match t.lexeme with
  | .code c => if isBracket c then some ⟨c, t.place⟩ else none
  | _ => none

/-- The brackets among the tokens, in their order. -/
def marks (ts : List Token) : List Mark :=
  ts.filterMap Token.mark?

theorem marks_append (ts ts' : List Token) : marks (ts ++ ts') = marks ts ++ marks ts' :=
  List.filterMap_append

/-- The opener as it stands in the text. -/
def OpenBracket.mark (b : OpenBracket) : Mark :=
  ⟨b.opener, b.place⟩

namespace Event

/-- The event is a fault of brackets. -/
def isOfBrackets : Event → Bool
  | fault _ f => f.isOfBrackets
  | _ => false

/-- A fault of a bracket, which is one column wide. -/
def ofMismatch (m : Position × Fault) : Event :=
  .fault (.wide m.1 1) m.2

end Event

/-- The faults that matching finds, as the reader meets them. -/
def unfit (brackets : List OpenBracket) (ms : List Mark) : List Event :=
  (mismatches (brackets.map OpenBracket.mark) ms).map Event.ofMismatch

/-! ## The code of a line -/

namespace Draft

variable (d : Draft) (pos : Position)

theorem mark?_code (c : Char) :
    Token.mark? ⟨pos, .code c⟩ = if isBracket c then some ⟨c, pos⟩ else none := rfl

/-- A character of code is matched with the openers of its logical line. -/
theorem unfit_code (c : Char) (ms : List Mark) :
    unfit d.brackets ((Token.mark? ⟨pos, .code c⟩).toList ++ ms) =
      ((bracketFault? d.brackets c).map (.fault (.wide pos 1))).toList ++
        unfit (stack d.brackets pos c) ms := by
  rw [mark?_code, isBracket, stack]
  unfold bracketFault?
  cases hopener : isOpener c with
  | true =>
    simp only [isCloser_eq_false_of_isOpener hopener, Bool.or_false, if_true, Bool.false_eq_true,
      if_false, Option.toList_some, List.singleton_append]
    rw [unfit, mismatches_opener hopener]
    rfl
  | false =>
    cases hcloser : isCloser c with
    | false => rfl
    | true =>
      simp only [Bool.or_true, if_true, Bool.false_eq_true, if_false, Option.toList_some,
        List.singleton_append]
      cases d.brackets with
      | nil =>
        rw [unfit, List.map_nil, mismatches_closer_nil hopener]
        rfl
      | cons b brackets =>
        rw [unfit, List.map_cons, mismatches_closer_cons hopener]
        dsimp only
        by_cases hfits : closerOf b.opener = c
        · rw [if_pos hfits, if_pos (show closerOf b.mark.char = c from hfits)]
          rfl
        · rw [if_neg hfits, if_neg (show ¬closerOf b.mark.char = c from hfits)]
          rfl

theorem filter_event?_code (c : Char) :
    (d.event? pos (.code c)).toList.filter Event.isOfBrackets =
      ((bracketFault? d.brackets c).map (.fault (.wide pos 1))).toList := by
  rw [event?]
  unfold bracketFault?
  split
  · split
    · rfl
    · split <;> rfl
  · rfl

/-- A piece is matched with the openers of its logical line. -/
theorem unfit_tokens (p : Piece) (ms : List Mark) :
    unfit d.brackets (marks (p.tokens pos) ++ ms) =
      (d.event? pos p).toList.filter Event.isOfBrackets ++ unfit (d.read pos p).brackets ms := by
  rw [brackets_read]
  cases p with
  | code c =>
    have hmarks : marks ((Piece.code c).tokens pos) = (Token.mark? ⟨pos, .code c⟩).toList := by
      rw [marks, Piece.tokens, List.filterMap_cons]
      cases Token.mark? ⟨pos, .code c⟩ <;> rfl
    rw [hmarks, unfit_code, filter_event?_code]
  | _ => rfl

/-- Code is matched, piece by piece. -/
theorem unfit_readAll (events : List Event) (ps : List Piece) (ms : List Mark) :
    events.reverse.filter Event.isOfBrackets ++
        unfit d.brackets (marks (pieceTokens pos ps) ++ ms) =
      (d.readAll pos events ps).2.2.reverse.filter Event.isOfBrackets ++
        unfit (d.readAll pos events ps).1.brackets ms := by
  induction ps generalizing d pos events with
  | nil => rfl
  | cons p ps ih =>
    have hreverse : (d.event? pos p).toList.reverse = (d.event? pos p).toList := by
      cases d.event? pos p <;> rfl
    rw [readAll_cons, ← ih, pieceTokens, marks_append, List.append_assoc, unfit_tokens,
      List.reverse_append, List.filter_append, hreverse, List.append_assoc]

end Draft

/-! ## From line to line -/

namespace State

/-- The faults of brackets so far. -/
def unfitted (s : State) : List Event :=
  s.events.reverse.filter Event.isOfBrackets

variable (s : State)

theorem unfitted_emit (e : Event) :
    (s.emit e).unfitted = s.unfitted ++ [e].filter Event.isOfBrackets := by
  rw [unfitted, emit, List.reverse_cons, List.filter_append]
  rfl

theorem unfitted_emit_of_not {e : Event} (he : e.isOfBrackets = false) :
    (s.emit e).unfitted = s.unfitted := by
  rw [unfitted_emit, List.filter_cons_of_neg (by simp [he])]
  exact List.append_nil _

theorem unfitted_faultIf {f : Fault} (hf : f.isOfBrackets = false) (bad : Bool) (range : Range) :
    (s.faultIf bad range f).unfitted = s.unfitted := by
  unfold faultIf
  split
  · exact s.unfitted_emit_of_not hf
  · rfl

theorem unfitted_reportMissing : s.reportMissing.unfitted = s.unfitted := by
  unfold reportMissing
  split
  · exact s.unfitted_emit_of_not rfl
  · rfl

theorem unfitted_reportBroken (broken : Option OpenString) (pos : Position) :
    (s.reportBroken broken pos).unfitted = s.unfitted := by
  cases broken with
  | none => rfl
  | some o => exact s.unfitted_emit_of_not rfl

/-- What is wrong with an indentation is no matter of brackets. -/
theorem unfitted_indent (w : Indent) (range : Range) : (s.indent w range).unfitted = s.unfitted := by
  unfold indent
  split
  · exact (unfitted_faultIf _ rfl _ range).trans (s.unfitted_faultIf rfl _ range)
  · rw [dedentTo_eq]
    dsimp only
    split
    · exact (unfitted_emit_of_not _ rfl).trans s.unfitted_reportMissing
    · exact (unfitted_faultIf _ rfl _ range).trans s.unfitted_reportMissing

/-- The brackets that are open between two lines, newest first. -/
def brackets (s : State) : List OpenBracket :=
  (s.draft.map Draft.brackets).getD []

/-- At the end of a line the open brackets stay open: a logical line with open brackets goes on. -/
theorem endLine_brackets (d : Draft) (pos : Position) (last : Option Piece) :
    (s.endLine d pos last).unfitted = s.unfitted ∧ (s.endLine d pos last).brackets = d.brackets := by
  have hbreak : (d.breakLine last).brackets = d.brackets := by
    unfold Draft.breakLine
    split <;> rfl
  have hbroken := s.unfitted_reportBroken (d.broken? last) pos
  rw [endLine_eq]
  dsimp only
  split
  · rename_i hcomplete
    simp only [Draft.isComplete, Bool.and_eq_true, List.isEmpty_iff] at hcomplete
    refine ⟨(unfitted_emit_of_not _ rfl).trans hbroken, ?_⟩
    rw [← hbreak, hcomplete.1.2]
    rfl
  · exact ⟨hbroken, hbreak⟩

end State

theorem marks_lineEnd (mode : Mode) (pos : Position) : marks (mode.lineEnd pos) = [] := by
  cases mode with
  | string o => rw [Mode.lineEnd]; split <;> rfl
  | _ => rfl

/-- Characters that leave no bracket visible are no brackets. -/
theorem marks_of_visibleOn {ts : List Token} (h : ∀ r, visibleOn r ts = []) : marks ts = [] := by
  rw [marks, List.filterMap_eq_nil_iff]
  intro t ht
  have hvisible : t.visible = [] := by
    have hline := List.flatMap_eq_nil_iff.1 (h t.place.line) t ht
    rwa [if_pos rfl] at hline
  obtain ⟨place, lexeme⟩ := t
  cases lexeme with
  | code c => cases hvisible
  | _ => rfl

theorem marks_indentTokens (row column : Nat) {front : List Char} (hfront : ∀ c ∈ front, indents c) :
    marks (indentTokens row column front) = [] := by
  induction front generalizing column with
  | nil => rfl
  | cons c front ih =>
    obtain ⟨hc, hfront⟩ := List.forall_mem_cons.1 hfront
    have hmark : Token.mark? ⟨⟨row, column⟩, .code c⟩ = none := by
      simp only [indents, Bool.or_eq_true, beq_iff_eq] at hc
      rcases hc with (rfl | rfl) | rfl <;> rfl
    rw [indentTokens, marks, List.filterMap_cons_none hmark]
    exact ih (column + 1) hfront

/-- What is wrong with the brackets up to here, and the stack on which those to come are matched, are
the reader's: `found` and `brackets`. -/
def Matches (ts : List Token) (found : List Event) (brackets : List OpenBracket) : Prop :=
  ∀ ms, unfit [] (marks ts ++ ms) = found ++ unfit brackets ms

namespace Matches

variable {ts : List Token} {found : List Event} {brackets : List OpenBracket}
  (h : Matches ts found brackets)

include h

/-- Tokens without brackets change nothing. -/
theorem append {ts' : List Token} (hts' : marks ts' = []) : Matches (ts ++ ts') found brackets := by
  intro ms
  rw [marks_append, hts', List.append_nil, h]

/-- Reading the code of a line matches its brackets. -/
theorem readCode {s : State} {d : Draft} (hfound : found = s.unfitted)
    (hbrackets : brackets = d.brackets) (pos : Position) (line : List Char) :
    Matches (ts ++ d.codeTokens pos line) (s.readCode d pos line).unfitted
      (s.readCode d pos line).brackets := by
  intro ms
  have hend := fun s' : State => s'.endLine_brackets
    (d.readAll pos s.events (pieces d.mode line)).1
    (d.readAll pos s.events (pieces d.mode line)).2.1 (pieces d.mode line).getLast?
  rw [State.readCode_eq, (hend _).1, (hend _).2, Draft.codeTokens, marks_append, marks_append,
    marks_lineEnd, List.append_nil, List.append_assoc, h, hfound, hbrackets]
  exact d.unfit_readAll pos s.events _ ms

end Matches

/-- Reading a line matches its brackets. -/
theorem State.matches_readLine {ts us : List Token} {s : State} {row : Nat} {line : List Char}
    (hline : s.Meets row line us) (h : Matches ts s.unfitted s.brackets) :
    Matches (ts ++ us) (s.readLine row line).unfitted (s.readLine row line).brackets := by
  cases hline with
  | @code d hd hread =>
    have hbrackets : s.brackets = d.brackets := by
      rw [State.brackets, hd]
      rfl
    rw [hread]
    exact h.readCode rfl hbrackets ⟨row, 0⟩ line
  | blank hnone hindents hread hvisible _ =>
    have hcomment : (comment? row line).toList.reverse.filter Event.isOfBrackets = [] := by
      unfold comment?
      split <;> rfl
    have hunfitted : (s.readLine row line).unfitted = s.unfitted := by
      rw [hread, State.unfitted, List.reverse_append, List.filter_append, hcomment, List.append_nil]
      rfl
    rw [hunfitted, hread, ← List.append_assoc]
    exact (h.append (marks_indentTokens row 0 hindents)).append (marks_of_visibleOn hvisible)
  | @begin _ _ w hnone hindents _ hread =>
    have hbrackets : s.brackets = [] := by
      rw [State.brackets, hnone]
      rfl
    have hindent := h.append (marks_indentTokens row 0 hindents)
    rw [hread, ← List.append_assoc]
    exact hindent.readCode (s.unfitted_indent w _).symm hbrackets _ _

/-! ## The end of the text -/

/-- What is open at the end of the text is never closed. -/
theorem State.unfitted_reportUnclosed (s : State) (string : Option OpenString)
    (brackets : List OpenBracket) :
    (s.reportUnclosed string brackets).unfitted = s.unfitted ++ unfit brackets [] := by
  induction brackets with
  | nil =>
    have hnone : unfit [] [] = [] := rfl
    rw [hnone, List.append_nil]
    cases string with
    | none => rfl
    | some o =>
      refine s.unfitted_emit_of_not ?_
      rw [Event.isOfBrackets]
      split <;> rfl
  | cons b brackets ih =>
    have hcons : unfit (b :: brackets) [] =
        unfit brackets [] ++ [.fault (.wide b.place 1) (.neverClosed b.opener)] := by
      simp [unfit, mismatches_nil, OpenBracket.mark, Event.ofMismatch]
    rw [hcons, ← List.append_assoc, ← ih]
    exact State.unfitted_emit _ _

/-- At the end of the text everything is matched. -/
theorem State.filter_finish (s : State) :
    s.finish.filter Event.isOfBrackets = s.unfitted ++ unfit s.brackets [] := by
  have habandon : s.abandonOpen.unfitted = s.unfitted ++ unfit s.brackets [] := by
    unfold State.abandonOpen State.brackets
    cases s.draft with
    | none => exact (List.append_nil _).symm
    | some d =>
      exact (unfitted_emit_of_not _ rfl).trans (s.unfitted_reportUnclosed d.string d.brackets)
  rw [← habandon, ← unfitted_reportMissing]
  rfl

/-- The brackets of a text outside strings and comments. -/
def bracketsOf (text : List Char) : List Mark :=
  marks (tokenize (Text.joinBreaks text))

theorem marks_tokenize (text : List Char) :
    bracketsOf text = marks (tokenize (Text.unlines (Text.lines text))) :=
  filterMap_tokenize (fun _ => rfl) (fun _ _ => rfl) text

/-- What the reader finds wrong with the brackets of a text is what matching finds. -/
theorem filter_scan (text : List Char) :
    (scan (Text.lines text)).filter Event.isOfBrackets =
      (mismatches [] (bracketsOf text)).map Event.ofMismatch := by
  have hinitial : Matches [] State.initial.unfitted State.initial.brackets := fun _ => rfl
  have hlines : ∀ line ∈ Text.lines text, '\n' ∉ line :=
    fun line hline => Text.newline_not_mem_of_mem_lines hline
  obtain ⟨ts, hmatches, htokens⟩ := State.tokenize_readLines
    (motive := fun ts _ s => Matches ts s.unfitted s.brackets) hlines
    (fun _ _ _ _ _ _ hline h => State.matches_readLine hline h) hinitial
  have hend : ∀ mode : Mode, marks mode.textEnd = [] := by
    intro mode
    cases mode <;> rfl
  have hmarks : bracketsOf text = marks ts ++ [] := by
    rw [marks_tokenize, htokens, marks_append, hend]
  rw [hmarks, scan, State.filter_finish]
  exact (hmatches []).symm

/-- The report of a fault. -/
def Event.report? : Event → Option Diagnostic
  | fault range f => some ⟨range, .error, .python, f.message⟩
  | _ => none

/-- The report of a bracket that matching finds to be wrong. -/
def unfitReport (m : Position × Fault) : Diagnostic :=
  ⟨.wide m.1 1, .error, .python, m.2.message⟩

/-- What is reported of brackets, event by event. -/
theorem filter_isOfBrackets (options : Options) (finder : TaskComment.Finder) (e : Event) :
    (e.diagnostics options finder).filter Diagnostic.isOfBrackets =
      (if e.isOfBrackets then e.report? else none).toList := by
  have hreports := filter_reports (p := Diagnostic.isOfBrackets) (q := Fault.isOfBrackets) ?_
    (fun d hd => by simp [Diagnostic.isOfBrackets, hd]) rfl rfl options finder e
  · refine hreports.trans ?_
    cases e with
    | fault range f => cases f <;> rfl
    | _ => rfl
  · intro range severity f
    rw [Bool.eq_iff_iff, Fault.isOfBrackets_iff]
    simp [Diagnostic.isOfBrackets]

/-- Where reports are collected, those of brackets are those of what matching finds, in the order of
their places. -/
theorem filter_isOfBrackets_diagnostics (text : List Char) {options : Options}
    (hcollect : options.collect = true) :
    (diagnostics options (scan (Text.lines text))).filter Diagnostic.isOfBrackets =
      ((mismatches [] (bracketsOf text)).map unfitReport).mergeSort Diagnostic.byStart := by
  have hreport : Event.report? ∘ Event.ofMismatch = some ∘ unfitReport := rfl
  rw [filter_diagnostics, if_pos hcollect]
  simp only [filter_isOfBrackets]
  rw [← List.filterMap_eq_flatMap_toList, ← List.filterMap_filter, filter_scan, List.filterMap_map,
    hreport, List.filterMap_eq_map]

end Layout

/-- Where reports are collected, none says that a bracket is unmatched, does not match its opener or
was never closed, if and only if the brackets of the text outside strings and comments are
well-nested. In every case the reports of brackets, with their places and their words, are those of
matching with a stack. (The report of a comment says what its author likes, and is signed
otherwise.) -/
theorem brackets_reported (content : ByteArray) (options : Options)
    (hcollect : options.collect = true) :
    ((∀ d ∈ (parse content options).diagnostics, d.source = .python →
        ∀ word ∈ bracketWords, ¬word.toList <:+: d.message.toList) ↔
      Bracket.WellNested ((Layout.bracketsOf (decodeText content)).map Bracket.Mark.char)) ∧
      (parse content options).diagnostics.filter Diagnostic.isOfBrackets =
        ((Bracket.mismatches [] (Layout.bracketsOf (decodeText content))).map
          Layout.unfitReport).mergeSort Diagnostic.byStart := by
  have hreports := Layout.filter_isOfBrackets_diagnostics (decodeText content) hcollect
  refine ⟨?_, hreports⟩
  rw [← Bracket.mismatches_eq_nil_iff]
  have hnil : (parse content options).diagnostics.filter Diagnostic.isOfBrackets = [] ↔
      Bracket.mismatches [] (Layout.bracketsOf (decodeText content)) = [] := by
    rw [parse, parseText, hreports, ← List.length_eq_zero_iff, List.length_mergeSort,
      List.length_map, List.length_eq_zero_iff]
  rw [← hnil, List.filter_eq_nil_iff]
  refine forall₂_congr fun d _ => ?_
  simp [Diagnostic.isOfBrackets]

/-- A bracket in a string, one in a comment, closers that do not fit, one without an opener and
openers that are never closed, over several lines. -/
def mismatchedText : ByteArray := "f('(', [1,  # (\n  2)])\ng(\x7b\n".toUTF8

/-- The closer that does not fit pops its opener, and so does the next; the third finds none. -/
theorem mismatchedText_reports :
    Options.standard.collect = true ∧
      (Layout.bracketsOf (decodeText mismatchedText)).map Bracket.Mark.char =
        ['(', '[', ')', ']', ')', '(', '{'] ∧
      ¬Bracket.WellNested ((Layout.bracketsOf (decodeText mismatchedText)).map Bracket.Mark.char) ∧
      (parse mismatchedText .standard).diagnostics.filter Diagnostic.isOfBrackets =
        [(⟨1, 3⟩, .mismatched ')' '['), (⟨1, 4⟩, .mismatched ']' '('), (⟨1, 5⟩, .unmatched ')'),
          (⟨2, 1⟩, .neverClosed '('), (⟨2, 2⟩, .neverClosed '{')].map Layout.unfitReport := by
  obtain ⟨-, hreports⟩ := brackets_reported mismatchedText .standard rfl
  refine ⟨rfl, by decide +kernel, ?_, ?_⟩
  · rw [← Bracket.mismatches_eq_nil_iff]
    decide +kernel
  · rw [hreports, List.mergeSort_of_pairwise]
    · decide +kernel
    · decide +kernel

end Reparse
