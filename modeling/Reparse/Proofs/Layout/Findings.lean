import Reparse.Proofs.Layout.Tokenized

/-!
What is reported of comments and of strings that are not closed. The reports are those of the
findings of the whole text, in their order: the places of findings rise, so sorting the reports by
their places leaves them where they are.
-/

namespace Reparse

namespace Statement

/-- The one fault that a statement can have of itself is a misplaced `async`. -/
def Sorted.FaultIsAsync (s : Sorted) : Prop :=
  s.fault = none ∨ s.fault = some .asyncUnsupported

namespace Sorted

theorem faultIsAsync_sound (kind : Kind) (bindings : List String) :
    (sound kind bindings).FaultIsAsync :=
  .inl rfl

theorem faultIsAsync_ite {p : Prop} [Decidable p] {s s' : Sorted} (h : s.FaultIsAsync)
    (h' : s'.FaultIsAsync) : (if p then s else s').FaultIsAsync := by
  split
  · exact h
  · exact h'

end Sorted

open Sorted

theorem faultIsAsync_classifyPlain (cs : List Char) : (classifyPlain cs).FaultIsAsync := by
  unfold classifyPlain
  split <;> exact faultIsAsync_sound _ _

theorem faultIsAsync_classifyAsync (rest : List Char) (version : LanguageVersion) :
    (classifyAsync rest version).FaultIsAsync := by
  unfold classifyAsync
  dsimp only
  apply faultIsAsync_ite
  · apply faultIsAsync_ite
    · exact .inr rfl
    · apply faultIsAsync_ite <;> exact faultIsAsync_sound _ _
  · exact faultIsAsync_classifyPlain _

theorem faultIsAsync_classify (cs : List Char) (version : LanguageVersion) :
    (classify cs version).FaultIsAsync := by
  unfold classify classifyTrimmed
  dsimp only
  refine faultIsAsync_ite (faultIsAsync_sound .decorator _) ?_
  refine faultIsAsync_ite (faultIsAsync_sound .importing _) ?_
  refine faultIsAsync_ite (faultIsAsync_sound .importing _) ?_
  refine faultIsAsync_ite (faultIsAsync_sound .functionDef _) ?_
  refine faultIsAsync_ite (faultIsAsync_sound .classDef _) ?_
  refine faultIsAsync_ite (faultIsAsync_classifyAsync _ version) ?_
  refine faultIsAsync_ite (faultIsAsync_sound .returning _) ?_
  refine faultIsAsync_ite (faultIsAsync_sound .passing _) ?_
  refine faultIsAsync_ite (faultIsAsync_sound .control _) ?_
  exact faultIsAsync_ite (faultIsAsync_sound .control _) (faultIsAsync_classifyPlain _)

end Statement

namespace Layout

theorem LogicalLine.eq_of_mem_faults {l : LogicalLine} {version : LanguageVersion} {f : Fault}
    (hf : f ∈ l.faults version) : f = .asyncUnsupported := by
  obtain ⟨sorted, hsorted, hfault⟩ := List.mem_filterMap.1 hf
  obtain ⟨cs, -, rfl⟩ := List.mem_map.1 hsorted
  rcases Statement.faultIsAsync_classify cs version with hnone | hasync
  · exact absurd (hfault.symm.trans hnone) (by simp)
  · exact Option.some.inj (hfault.symm.trans hasync)

/-- The place and the text of a comment that is met. -/
def Event.comment? : Event → Option (Position × List Char)
  | comment start text => some (start, text)
  | _ => none

/-- The place and the text of a comment. -/
def Token.comment? (t : Token) : Option (Position × List Char) :=
  match t.lexeme with
  | .comment text => some (t.place, text)
  | _ => none

/-- Where a string begins that is not closed. -/
def Token.unterminated? (triple : Bool) (t : Token) : Option Position :=
  if t.lexeme = .unterminated triple then some t.place else none

/-- The fault of a string that is not closed. -/
def unterminatedFault (triple : Bool) : Fault :=
  if triple then .unterminatedTriple else .unterminatedString

/-- The reports of some of the faults that the reader itself finds, event by event, where the reports
of those faults are told from all others by `p`. -/
theorem filter_reports {p : Diagnostic → Bool} {q : Fault → Bool}
    (hp : ∀ range severity f, p ⟨range, severity, .python, f.message⟩ = q f)
    (hcomment : ∀ d, d.source = .taskComment → p d = false) (hmixed : q .mixedIndent = false)
    (hasync : q .asyncUnsupported = false) (options : Options) (finder : TaskComment.Finder)
    (e : Event) : (e.diagnostics options finder).filter p =
      match e with
      | .fault range f => if q f then [⟨range, .error, .python, f.message⟩] else []
      | _ => [] := by
  have hreport : ∀ range f, (Event.report options range f).filter p =
      if q f then [⟨range, .error, .python, f.message⟩] else [] := by
    intro range f
    split
    · rename_i hf
      have hne : f ≠ .mixedIndent := by
        rintro rfl
        rw [hmixed] at hf
        cases hf
      simp [Event.report, hne, hp, hf]
    · rename_i hf
      rw [List.filter_eq_nil_iff]
      intro d hd
      obtain ⟨severity, rfl⟩ := Event.eq_of_mem_report hd
      rw [hp]
      exact hf
  cases e with
  | comment start text => exact Event.filter_comment hcomment options finder start text
  | fault range f => exact hreport range f
  | line l =>
    rw [Event.diagnostics, List.filter_flatMap, List.flatMap_eq_nil_iff]
    intro f hf
    rw [hreport, LogicalLine.eq_of_mem_faults hf, hasync]
    rfl

/-- The reports of a fault that the reader itself finds, event by event. -/
theorem filter_isReportOf {g : Fault} (hg : g ∈ Fault.distinguished) (hmixed : g ≠ .mixedIndent)
    (hasync : .asyncUnsupported ≠ g) (options : Options) (finder : TaskComment.Finder)
    (e : Event) : (e.diagnostics options finder).filter (Diagnostic.isReportOf g) =
      match e with
      | .fault range f => if f = g then [⟨range, .error, .python, f.message⟩] else []
      | _ => [] := by
  have hreports := filter_reports (p := Diagnostic.isReportOf g) (q := fun f => decide (f = g))
    (fun _ _ f => by
      rw [Diagnostic.isReportOf, Bool.eq_iff_iff]
      simp [Fault.message_eq_iff hg])
    (fun d hd => by simp [Diagnostic.isReportOf, hd]) (decide_eq_false (Ne.symm hmixed))
    (decide_eq_false hasync) options finder e
  simpa only [decide_eq_true_eq] using hreports

/-- A property that only findings have can be looked for among the findings. -/
theorem filterMap_findings {β : Type} {f : Token → Option β}
    (hf : ∀ t, t.isFinding = false → f t = none) (ts : List Token) :
    (findings ts).filterMap f = ts.filterMap f := by
  induction ts with
  | nil => rfl
  | cons t ts ih =>
    cases ht : t.isFinding with
    | true =>
      rw [findings, List.filter_cons_of_pos ht, List.filterMap_cons, List.filterMap_cons,
        ← findings, ih]
    | false =>
      rw [findings, List.filter_cons_of_neg (by simp [ht]), List.filterMap_cons_none (hf t ht),
        ← findings, ih]

theorem filterMap_comment?_findings (ts : List Token) :
    (findings ts).filterMap Token.comment? = ts.filterMap Token.comment? := by
  refine filterMap_findings ?_ ts
  rintro ⟨place, lexeme⟩ h
  cases lexeme with
  | comment text => cases h
  | _ => rfl

theorem filterMap_unterminated?_findings (triple : Bool) (ts : List Token) :
    (findings ts).filterMap (Token.unterminated? triple) =
      ts.filterMap (Token.unterminated? triple) := by
  refine filterMap_findings ?_ ts
  rintro ⟨place, lexeme⟩ h
  cases lexeme with
  | unterminated triple => cases h
  | _ => rfl

section Reports

variable (text : List Char) (options : Options)

/-- The comments that are met are those of the text. -/
theorem filterMap_comment?_scan :
    (scan (Text.lines text)).filterMap Event.comment? =
      (tokenize (Text.joinBreaks text)).filterMap Token.comment? := by
  have hcomment : Event.comment? = fun e => e.token?.bind Token.comment? := by
    funext e
    cases e with
    | fault range f => cases f <;> rfl
    | _ => rfl
  rw [hcomment, ← List.filterMap_filterMap, (scan_lines_agrees text).1,
    filterMap_comment?_findings]

/-- Reports that stand at findings are in order before they are sorted. -/
theorem filter_diagnostics_scan {p : Diagnostic → Bool}
    (hp : ∀ (e : Event) (d : Diagnostic),
      d ∈ (e.diagnostics options (finder options)).filter p →
        ∃ t, e.token? = some t ∧ d.range.start = t.place) :
    (diagnostics options (scan (Text.lines text))).filter p =
      if options.collect then
        (scan (Text.lines text)).flatMap fun e =>
          (e.diagnostics options (finder options)).filter p
      else [] := by
  have hplaces := pairwise_findings_tokenize (Text.joinBreaks text)
  rw [← (scan_lines_agrees text).1, List.pairwise_map, List.pairwise_filterMap] at hplaces
  rw [filter_diagnostics]
  split
  · -- Reports of one event stand at one place, and those of two events where their findings stand.
    refine List.mergeSort_of_pairwise (List.pairwise_flatMap.2 ⟨?_, hplaces.imp ?_⟩)
    · intro e _
      refine List.pairwise_of_forall_mem_list ?_
      intro d hd d' hd'
      obtain ⟨t, ht, hstart⟩ := hp e d hd
      obtain ⟨t', ht', hstart'⟩ := hp e d' hd'
      rw [ht, Option.some.injEq] at ht'
      rw [Diagnostic.byStart, hstart, hstart', ← ht']
      exact Position.precedes_refl _
    · intro e e' hle d hd d' hd'
      obtain ⟨t, ht, hstart⟩ := hp e d hd
      obtain ⟨t', ht', hstart'⟩ := hp e' d' hd'
      rw [Diagnostic.byStart, hstart, hstart']
      exact hle t ht t' ht'
  · rfl

/-- The reports of comments are those of the comments of the text. -/
theorem filter_taskComment_diagnostics :
    (diagnostics options (scan (Text.lines text))).filter (fun d => d.source == .taskComment) =
      if options.collect then
        ((tokenize (Text.joinBreaks text)).filterMap Token.comment?).flatMap fun c =>
          (Event.comment c.1 c.2).diagnostics options (finder options)
      else [] := by
  have hreport : ∀ range f,
      (Event.report options range f).filter (fun d => d.source == .taskComment) = [] := by
    intro range f
    rw [List.filter_eq_nil_iff]
    intro d hd
    obtain ⟨severity, rfl⟩ := Event.eq_of_mem_report hd
    simp
  have hevent : ∀ e : Event,
      (e.diagnostics options (finder options)).filter (fun d => d.source == .taskComment) =
        e.comment?.toList.flatMap fun c =>
          (Event.comment c.1 c.2).diagnostics options (finder options) := by
    intro e
    cases e with
    | comment start text =>
      rw [Event.comment?, Option.toList_some, List.flatMap_singleton, List.filter_eq_self]
      intro d hd
      rw [Event.source_of_mem_comment hd]
      rfl
    | fault range f => exact hreport range f
    | line l =>
      rw [Event.diagnostics, List.filter_flatMap, List.flatMap_eq_nil_iff.2 fun f _ => hreport _ f]
      rfl
  rw [filter_diagnostics_scan, ← filterMap_comment?_scan]
  · simp only [hevent, List.filterMap_eq_flatMap_toList, List.flatMap_assoc]
  · intro e d hd
    rw [hevent] at hd
    cases e with
    | comment start text =>
      obtain ⟨hit, -, rfl⟩ := List.mem_map.1 ((List.flatMap_singleton _ _) ▸ hd)
      exact ⟨_, rfl, rfl⟩
    | _ => cases hd

/-- The reports of strings that are not closed are those of the text. -/
theorem map_start_unterminated_diagnostics (triple : Bool) :
    ((diagnostics options (scan (Text.lines text))).filter
        (Diagnostic.isReportOf (unterminatedFault triple))).map (fun d => d.range.start) =
      if options.collect then
        (tokenize (Text.joinBreaks text)).filterMap (Token.unterminated? triple)
      else [] := by
  have hfilter := filter_isReportOf (g := unterminatedFault triple) (by cases triple <;> decide)
    (by cases triple <;> decide) (by cases triple <;> decide) options (finder options)
  have hstart : ∀ e : Event, ((e.diagnostics options (finder options)).filter
      (Diagnostic.isReportOf (unterminatedFault triple))).map (fun d => d.range.start) =
        (e.token?.bind (Token.unterminated? triple)).toList := by
    intro e
    rw [hfilter]
    cases e with
    | fault range f => cases f <;> cases triple <;> rfl
    | _ => rfl
  rw [filter_diagnostics_scan, ← filterMap_unterminated?_findings, ← (scan_lines_agrees text).1,
    List.filterMap_filterMap, List.filterMap_eq_flatMap_toList]
  · split
    · rw [List.map_flatMap]
      simp only [hstart]
    · rfl
  · intro e d hd
    rw [hfilter] at hd
    cases e with
    | fault range f =>
      dsimp only at hd
      split at hd
      · rename_i hf
        rw [List.mem_singleton.1 hd, hf]
        cases triple <;> exact ⟨_, rfl, rfl⟩
      · cases hd
    | _ => cases hd

end Reports

end Layout

/-- The reader of lines agrees with one pass over the whole text, its carriage returns before line
feeds left out. The comments that it meets, and whose keywords it reports, are the comments of the
pass; the strings that it reports as not closed are those that the pass finds, each sort for
itself; and a logical line is made of what the pass sees outside comments and strings. -/
theorem parseText_agrees_with_tokens (text : List Char) (options : Options) :
    (Layout.scan (Text.lines text)).filterMap Layout.Event.comment? =
        (Layout.tokenize (Text.joinBreaks text)).filterMap Layout.Token.comment? ∧
      (parseText text options).diagnostics.filter (fun d => d.source == .taskComment) =
        (if options.collect then
          ((Layout.tokenize (Text.joinBreaks text)).filterMap Layout.Token.comment?).flatMap
            fun c => (Layout.Event.comment c.1 c.2).diagnostics options (Layout.finder options)
        else []) ∧
      (∀ triple, ((parseText text options).diagnostics.filter
          (Diagnostic.isReportOf (Layout.unterminatedFault triple))).map (fun d => d.range.start) =
        if options.collect then
          (Layout.tokenize (Text.joinBreaks text)).filterMap (Layout.Token.unterminated? triple)
        else []) ∧
      ∀ l, .line l ∈ Layout.scan (Text.lines text) →
        Layout.IsCodeOf (Layout.tokenize (Text.joinBreaks text)) l :=
  ⟨Layout.filterMap_comment?_scan text, Layout.filter_taskComment_diagnostics text options,
    Layout.map_start_unterminated_diagnostics text options, (Layout.scan_lines_agrees text).2⟩

/-- Number signs in a string, in a comment and in a string that is not closed. -/
def unclosedText : List Char :=
  "s = 'a # b'  # TODO\nt = (\"\"\"c\r\n # d".toList

/-- Only one number sign begins a comment, and the strings leave nothing but their delimiters. -/
theorem unclosedText_agrees_with_tokens :
    (Layout.tokenize (Text.joinBreaks unclosedText)).filterMap Layout.Token.comment? =
        [(⟨0, 13⟩, "# TODO".toList)] ∧
      .line ⟨⟨⟨1, 0⟩, ⟨2, 4⟩⟩, 0, "t = (\"\"\"  ".toList⟩ ∈ Layout.scan (Text.lines unclosedText) ∧
      Layout.IsCodeOf (Layout.tokenize (Text.joinBreaks unclosedText))
        ⟨⟨⟨1, 0⟩, ⟨2, 4⟩⟩, 0, "t = (\"\"\"  ".toList⟩ := by
  obtain ⟨hcomments, -, -, hcode⟩ := parseText_agrees_with_tokens unclosedText .standard
  have hmem : .line ⟨⟨⟨1, 0⟩, ⟨2, 4⟩⟩, 0, "t = (\"\"\"  ".toList⟩ ∈
      Layout.scan (Text.lines unclosedText) := by decide +kernel
  exact ⟨hcomments.symm.trans (by decide +kernel), hmem, hcode _ hmem⟩

end Reparse
