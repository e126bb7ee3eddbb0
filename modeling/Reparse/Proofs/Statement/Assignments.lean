import Reparse.Proofs.Statement.Targets

/-!
The names that are read off an assignment. Whatever stands in subscripts and lists of targets, the
text is cut exactly at its equals signs outside brackets, and the names are those of the items of its
target lists, each item read for itself. These are the names that the assignment binds where every
name target can be read in its item and nothing else in one can be.
-/

namespace Reparse.Statement

open Reparse.Bracket (Nested Calm)

/-! ## Segments -/

/-- The characters behind which an equals sign is not plain. -/
def operatorChars : List Char :=
  "+-*/%&|^@=!<>:".toList

/-- The operators of augmented assignments. -/
def augmentedOperators : List (List Char) :=
  ["+", "-", "*", "/", "//", "%", "@", "&", "|", "^", ">>", "<<", "**"].map String.toList

/-- The characters of names and gaps, and the separators: neither operators nor brackets. -/
def IsOrdinary (c : Char) : Prop :=
  c ∉ operatorChars ∧ Bracket.isBracket c = false

instance (c : Char) : Decidable (IsOrdinary c) :=
  inferInstanceAs (Decidable (_ ∧ _))

theorem isOrdinary_of_not {p : Char → Bool} (hoperator : operatorChars.all (!p ·) = true)
    (hbracket : "()[]\x7b\x7d".toList.all (!p ·) = true) {c : Char} (h : p c = true) :
    IsOrdinary c := by
  refine ⟨fun hc => ?_, ?_⟩
  · have hnot := List.all_eq_true.1 hoperator c hc
    rw [h] at hnot
    cases hnot
  · rw [Bool.eq_false_iff]
    intro hc
    have hmem : c ∈ "()[]\x7b\x7d".toList := by
      simp only [Bracket.isBracket, Bracket.isOpener, Bracket.isCloser, Bool.or_eq_true,
        beq_iff_eq] at hc
      rcases hc with ((rfl | rfl) | rfl) | ((rfl | rfl) | rfl) <;> decide
    have hnot := List.all_eq_true.1 hbracket c hmem
    rw [h] at hnot
    cases hnot

theorem isOrdinary_of_isWordChar {c : Char} (h : Text.isWordChar c = true) : IsOrdinary c :=
  isOrdinary_of_not (by decide +kernel) (by decide +kernel) h

theorem isOrdinary_of_isBlank {c : Char} (h : Text.isBlank c = true) : IsOrdinary c :=
  isOrdinary_of_not (by decide +kernel) (by decide +kernel) h

/-- A text that can stand in front of a plain equals sign and has none itself outside brackets. -/
structure Segment (cs : List Char) : Prop where
  nested : Nested (· != '=') cs
  last : ∃ front c, cs = front ++ [c] ∧ c ∉ operatorChars

theorem nested_of_forall {cs : List Char} (h : ∀ c ∈ cs, IsOrdinary c) : Nested (· != '=') cs := by
  refine .of_forall fun c hc => ⟨?_, (h c hc).2⟩
  have hne : c ≠ '=' := fun e => (h c hc).1 (e ▸ by decide)
  simpa using hne

namespace Segment

variable {cs cs' : List Char}

theorem of_forall (hne : cs ≠ []) (h : ∀ c ∈ cs, IsOrdinary c) : Segment cs where
  nested := nested_of_forall h
  last := by
    refine ⟨cs.dropLast, cs.getLast hne, (List.dropLast_concat_getLast hne).symm, ?_⟩
    exact (h _ (List.getLast_mem hne)).1

theorem prepend (h' : Segment cs') (h : Nested (· != '=') cs) : Segment (cs ++ cs') where
  nested := h.append h'.nested
  last := by
    obtain ⟨front, c, rfl, hc⟩ := h'.last
    exact ⟨cs ++ front, c, (List.append_assoc _ _ _).symm, hc⟩

/-- More characters that are no operators. -/
theorem append (h : Segment cs) (h' : ∀ c ∈ cs', IsOrdinary c) : Segment (cs ++ cs') := by
  by_cases hne : cs' = []
  · rwa [hne, List.append_nil]
  · exact (of_forall hne h').prepend h.nested

theorem group {opener : Char} (hopener : Bracket.isOpener opener = true) {inside : List Char}
    (h : Nested (fun _ => true) inside) :
    Segment (opener :: (inside ++ [Bracket.closerOf opener])) where
  nested := .group hopener h (.nil _)
  last := by
    refine ⟨opener :: inside, Bracket.closerOf opener, rfl, ?_⟩
    unfold Bracket.closerOf
    split
    · decide
    split <;> decide

theorem ne_nil (h : Segment cs) : cs ≠ [] := by
  obtain ⟨front, c, rfl, -⟩ := h.last
  simp

end Segment

/-! ## Targets are segments -/

theorem isOrdinary_gap (gap : Gap) : ∀ c ∈ gap.1, IsOrdinary c :=
  fun c hc => isOrdinary_of_isBlank (gap.2 c hc)

theorem segment_name (n : Name) : Segment n.1 := by
  refine .of_forall ?_ fun c hc =>
    isOrdinary_of_isWordChar (List.all_eq_true.1 (Text.all_isWordChar_of_isName n.2) c hc)
  intro hnil
  have hname := n.2
  rw [hnil] at hname
  cases hname

theorem segment_group (square : Bool) {inside : List Char} (h : Nested (fun _ => true) inside) :
    Segment (opener square :: (inside ++ [closer square])) := by
  cases square with
  | true => exact .group (by decide) h
  | false => exact .group (by decide) h

/-- What may stand outside brackets may stand inside. -/
theorem nested_inside {p : Char → Bool} {cs : List Char} (h : Nested p cs) :
    Nested (fun _ => true) cs := by
  induction h with
  | nil => exact .nil _
  | char _ hbracket _ ih => exact .char rfl hbracket ih
  | group hopener hinside _ _ ih => exact .group hopener hinside ih

theorem Place.segment (p : Place) : Segment p.text := by
  cases p with
  | member object front back name =>
    refine Segment.prepend ?_ object.2.2
    refine Segment.prepend ?_ (nested_of_forall (isOrdinary_gap front))
    have hdot : Segment ['.'] :=
      .of_forall (List.cons_ne_nil _ _) (List.forall_mem_singleton.2 (by decide))
    exact ((segment_name name).prepend (nested_of_forall (isOrdinary_gap back))).prepend hdot.nested
  | subscript object gap index =>
    refine Segment.prepend ?_ object.2.2
    exact (segment_group true index.2).prepend (nested_of_forall (isOrdinary_gap gap))

mutual

theorem Target.segment (t : Target) : Segment t.text := by
  match t with
  | .name n => exact segment_name n
  | .place p => exact p.segment
  | .starred gap t =>
    have hstar : Nested (· != '=') ['*'] := .char (by decide) (by decide) (.nil _)
    exact (t.segment.prepend (nested_of_forall (isOrdinary_gap gap))).prepend hstar
  | .empty square gap =>
    exact segment_group square (nested_inside (nested_of_forall (isOrdinary_gap gap)))
  | .group square inside => exact segment_group square (nested_inside inside.segment.nested)

theorem Targets.segment (ts : Targets) : Segment ts.text := by
  match ts with
  | .one front t back =>
    exact (t.segment.append (isOrdinary_gap back)).prepend (nested_of_forall (isOrdinary_gap front))
  | .closed front t back gap =>
    have hback : ∀ c ∈ back.1 ++ ',' :: gap.1, IsOrdinary c :=
      List.forall_mem_append.2 ⟨isOrdinary_gap back,
        List.forall_mem_cons.2 ⟨by decide, isOrdinary_gap gap⟩⟩
    exact (t.segment.append hback).prepend (nested_of_forall (isOrdinary_gap front))
  | .more front t back rest =>
    have hcomma : ∀ c ∈ back.1 ++ [','], IsOrdinary c :=
      List.forall_mem_append.2 ⟨isOrdinary_gap back, List.forall_mem_singleton.2 (by decide)⟩
    have hrest := (rest.segment.prepend (nested_of_forall hcomma)).prepend t.segment.nested
    rw [List.append_assoc] at hrest
    exact hrest.prepend (nested_of_forall (isOrdinary_gap front))

end

/-! ## Cutting at equals signs -/

theorem beq_of_not_mem_operatorChars {c d : Char} (hc : c ∉ operatorChars)
    (hd : d ∈ operatorChars) : (c == d) = false := by
  simpa using fun e : c = d => hc (e ▸ hd)

theorem isOperatorChar_of_not_mem {c : Char} (hc : c ∉ operatorChars) :
    isOperatorChar c = false := by
  rw [Bool.eq_false_iff]
  intro h
  simp only [isOperatorChar, Bool.or_eq_true, beq_iff_eq] at h
  rcases h with (((((((rfl | rfl) | rfl) | rfl) | rfl) | rfl) | rfl) | rfl) | rfl <;>
    exact hc (by decide)

theorem equalsRole_plain {c : Char} (hc : c ∉ operatorChars) (before : List Char)
    {next : Option Char} (hnext : next ≠ some '=') : equalsRole (c :: before) next = .plain := by
  have hequals : (c == '=') = false := beq_of_not_mem_operatorChars hc (by decide)
  have hnot : (c == '!') = false := beq_of_not_mem_operatorChars hc (by decide)
  have hless : (c == '<') = false := beq_of_not_mem_operatorChars hc (by decide)
  have hgreater : (c == '>') = false := beq_of_not_mem_operatorChars hc (by decide)
  have hcolon : (c == ':') = false := beq_of_not_mem_operatorChars hc (by decide)
  have hoperator := isOperatorChar_of_not_mem hc
  unfold equalsRole
  rw [if_neg (by simpa using hnext)]
  cases before with
  | nil => simp only [List.head?_cons, Option.any_some, hequals, hnot, hless, hgreater, hcolon,
      hoperator, Bool.or_false, Bool.false_eq_true, if_false]
  | cons b before => simp only [List.head?_cons, Option.any_some, hequals, hnot, hless, hgreater,
      hcolon, hoperator, Bool.or_false, Bool.and_false, Bool.false_eq_true, if_false]

theorem equalsRole_of_isOperatorChar {c : Char} (hc : isOperatorChar c = true)
    (before : List Char) {next : Option Char} (hnext : next ≠ some '=') :
    equalsRole (c :: before) next = .augmented := by
  unfold equalsRole
  rw [if_neg (by simpa using hnext)]
  simp only [isOperatorChar, Bool.or_eq_true, beq_iff_eq] at hc
  rcases hc with (((((((rfl | rfl) | rfl) | rfl) | rfl) | rfl) | rfl) | rfl) | rfl <;>
    cases before <;> simp [isOperatorChar]

theorem equalsRole_shift {c : Char} (hc : c = '<' ∨ c = '>') (before : List Char)
    {next : Option Char} (hnext : next ≠ some '=') :
    equalsRole (c :: c :: before) next = .augmented := by
  unfold equalsRole
  rw [if_neg (by simpa using hnext)]
  rcases hc with rfl | rfl <;> simp

/-- Behind an operator an equals sign belongs to it. -/
theorem equalsRole_augmented {operator : List Char} (hoperator : operator ∈ augmentedOperators)
    (before : List Char) {next : Option Char} (hnext : next ≠ some '=') :
    equalsRole (operator.reverse ++ before) next = .augmented := by
  have hcases : ∀ operator ∈ augmentedOperators, operator.reverse.head?.any isOperatorChar = true ∨
      operator.reverse = ['<', '<'] ∨ operator.reverse = ['>', '>'] := by decide
  rcases hcases operator hoperator with hhead | hshift | hshift
  · generalize operator.reverse = reversed at *
    cases reversed with
    | nil => cases hhead
    | cons c reversed => exact equalsRole_of_isOperatorChar hhead _ hnext
  · rw [hshift]
    exact equalsRole_shift (.inl rfl) before hnext
  · rw [hshift]
    exact equalsRole_shift (.inr rfl) before hnext

/-- Text without an equals sign outside brackets is read on. -/
theorem assignedFrom_calm {depth : Nat} {cs : List Char} (h : Calm depth cs)
    (before target : List Char) (targets : List (List Char)) (rest : List Char) :
    assignedFrom depth before target targets (cs ++ rest) =
      assignedFrom (cs.foldl Bracket.depth depth) (cs.reverse ++ before) (cs.reverse ++ target)
        targets rest := by
  induction cs generalizing depth before target with
  | nil => rfl
  | cons c cs ih =>
    obtain ⟨hc, hcs⟩ := Bracket.calm_cons_iff.1 h
    have hnot : ¬(c = '=' ∧ depth = 0) := by
      rintro ⟨heq, rfl⟩
      exact absurd (hc heq) (Nat.lt_irrefl 0)
    rw [List.cons_append, assignedFrom, if_neg hnot]
    dsimp only
    rw [ih hcs]
    simp

theorem head?_of_calm {cs : List Char} (h : Calm 0 cs) : cs.head? ≠ some '=' := by
  intro hhead
  obtain ⟨rest, rfl⟩ := List.head?_eq_some_iff.1 hhead
  exact absurd (h [] rest rfl) (Nat.lt_irrefl 0)

/-- The operators of comparisons that have an equals sign. -/
def comparisons : List (List Char) :=
  [['=', '='], ['!', '='], ['<', '='], ['>', '=']]

/-- Segments with comparisons between them: an expression without a plain equals sign outside
brackets. -/
inductive Compared : List Char → Prop
  | one {cs : List Char} : Segment cs → Compared cs
  | compare {cs operator rest : List Char} : Segment cs → operator ∈ comparisons → Compared rest →
    Compared (cs ++ (operator ++ rest))

namespace Compared

theorem prepend {cs front : List Char} (h : Compared cs) (hfront : Nested (· != '=') front) :
    Compared (front ++ cs) := by
  cases h with
  | one h => exact .one (h.prepend hfront)
  | compare h hoperator hrest =>
    rw [← List.append_assoc]
    exact .compare (h.prepend hfront) hoperator hrest

theorem last {cs : List Char} (h : Compared cs) :
    ∃ front c, cs = front ++ [c] ∧ c ∉ operatorChars := by
  induction h with
  | one h => exact h.last
  | @compare cs operator rest _ _ _ ih =>
    obtain ⟨front, c, rfl, hc⟩ := ih
    exact ⟨cs ++ (operator ++ front), c, by simp, hc⟩

/-- What stands behind an equals sign is no second one. -/
theorem head? {cs : List Char} (h : Compared cs) : ∃ d tail, cs = d :: tail ∧ d ≠ '=' := by
  have hsegment : ∀ {cs}, Segment cs → ∃ d tail, cs = d :: tail ∧ d ≠ '=' := by
    intro cs hcs
    obtain ⟨d, tail, rfl⟩ := List.exists_cons_of_ne_nil hcs.ne_nil
    have hhead := head?_of_calm (hcs.nested.calm (by decide))
    exact ⟨d, tail, rfl, fun hd => hhead (congrArg some hd)⟩
  cases h with
  | one h => exact hsegment h
  | compare h _ _ =>
    obtain ⟨d, tail, rfl, hd⟩ := hsegment h
    exact ⟨d, _, List.cons_append, hd⟩

end Compared

/-- Outside brackets, a character is read on unless it is an equals sign with another role. -/
theorem assignedFrom_other {c : Char} (hc : Bracket.isBracket c = false) {before rest : List Char}
    (hrole : c = '=' → equalsRole before rest.head? = .other) (target : List Char)
    (targets : List (List Char)) :
    assignedFrom 0 before target targets (c :: rest) =
      assignedFrom 0 (c :: before) (c :: target) targets rest := by
  have hother : (if c = '=' ∧ 0 = 0 then equalsRole before rest.head? else .other) = .other := by
    split
    · rename_i heq
      exact hrole heq.1
    · rfl
  rw [assignedFrom, hother, Nested.depth_of_not_isBracket hc]

/-- The characters behind which an equals sign makes a comparison or a named expression. -/
def comparisonChars : List Char :=
  "=!<>:".toList

theorem mem_comparisonChars {x : Char} :
    x ∈ comparisonChars ↔ x = '=' ∨ x = '!' ∨ x = '<' ∨ x = '>' ∨ x = ':' := by
  simp [comparisonChars]

theorem equalsRole_other {x : Char} (hx : x ∈ comparisonChars) {before : List Char}
    (hbefore : ∀ c ∈ before.head?, c ∉ operatorChars) (next : Option Char) :
    equalsRole (x :: before) next = .other := by
  have hcases := mem_comparisonChars.1 hx
  have hoperator : x ∈ operatorChars := by
    rcases hcases with rfl | rfl | rfl | rfl | rfl <;> decide
  have hne : ∀ c ∈ before.head?, (x == c) = false := by
    intro c hc
    rw [Bool.beq_comm]
    exact beq_of_not_mem_operatorChars (hbefore c hc) hoperator
  cases before with
  | nil => rcases hcases with rfl | rfl | rfl | rfl | rfl <;> simp [equalsRole]
  | cons b before =>
    have hb := hne b rfl
    rcases hcases with rfl | rfl | rfl | rfl | rfl <;> simp [equalsRole, hb]

/-- The equals signs of comparisons and named expressions are read on. -/
theorem assignedFrom_pair {x : Char} (hx : x ∈ comparisonChars) {before : List Char}
    (hbefore : ∀ c ∈ before.head?, c ∉ operatorChars) (target : List Char)
    (targets : List (List Char)) (rest : List Char) :
    assignedFrom 0 before target targets (x :: '=' :: rest) =
      assignedFrom 0 ('=' :: x :: before) ('=' :: x :: target) targets rest := by
  have hbracket : Bracket.isBracket x = false := by
    rcases mem_comparisonChars.1 hx with rfl | rfl | rfl | rfl | rfl <;> decide
  refine (assignedFrom_other hbracket ?_ _ _).trans
    (assignedFrom_other (by decide) (fun _ => equalsRole_other hx hbefore _) _ _)
  intro _
  simp [equalsRole]

/-- The equals signs of comparisons are read on. -/
theorem assignedFrom_comparison {operator : List Char} (hoperator : operator ∈ comparisons)
    {c : Char} (hc : c ∉ operatorChars) (before target : List Char)
    (targets : List (List Char)) (rest : List Char) :
    assignedFrom 0 (c :: before) target targets (operator ++ rest) =
      assignedFrom 0 (operator.reverse ++ c :: before) (operator.reverse ++ target) targets
        rest := by
  have hpair : ∀ operator ∈ comparisons,
      operator.headD ' ' ∈ comparisonChars ∧ operator = [operator.headD ' ', '='] := by decide
  obtain ⟨x, hx, rfl⟩ : ∃ x ∈ comparisonChars, operator = [x, '='] := ⟨_, hpair operator hoperator⟩
  exact assignedFrom_pair hx (by simpa using hc) target targets rest

/-- Text without a plain equals sign outside brackets is read on. -/
theorem assignedFrom_compared {cs : List Char} (h : Compared cs) (before target : List Char)
    (targets : List (List Char)) (rest : List Char) :
    assignedFrom 0 before target targets (cs ++ rest) =
      assignedFrom 0 (cs.reverse ++ before) (cs.reverse ++ target) targets rest := by
  have hsegment : ∀ {cs}, Segment cs → ∀ before target rest,
      assignedFrom 0 before target targets (cs ++ rest) =
        assignedFrom 0 (cs.reverse ++ before) (cs.reverse ++ target) targets rest := by
    intro cs hcs before target rest
    rw [assignedFrom_calm (hcs.nested.calm (by decide)), hcs.nested.foldl_depth]
  induction h generalizing before target with
  | one h => exact hsegment h before target rest
  | @compare cs operator more h hoperator _ ih =>
    obtain ⟨front, c, hcs, hc⟩ := h.last
    have hreverse : cs.reverse ++ before = c :: (front.reverse ++ before) := by
      rw [hcs]
      simp
    have hcompare := assignedFrom_comparison hoperator hc (front.reverse ++ before)
      (cs.reverse ++ target) targets (more ++ rest)
    rw [← hreverse] at hcompare
    rw [List.append_assoc, List.append_assoc, hsegment h, hcompare, ih]
    simp

/-- Text in front of a plain equals sign is a target list. -/
theorem assignedFrom_plain {cs : List Char} (h : Compared cs) (before : List Char)
    (targets : List (List Char)) {rest : List Char} (hrest : rest.head? ≠ some '=') :
    assignedFrom 0 before [] targets (cs ++ '=' :: rest) =
      assignedFrom 0 ('=' :: (cs.reverse ++ before)) [] (cs :: targets) rest := by
  obtain ⟨front, c, hcs, hc⟩ := h.last
  have hbefore : cs.reverse ++ before = c :: (front.reverse ++ before) := by
    rw [hcs]
    simp
  rw [assignedFrom_compared h, assignedFrom, if_pos ⟨rfl, rfl⟩, hbefore, equalsRole_plain hc _ hrest]
  simp [hcs]

/-- Target lists and a value, each target list with an equals sign behind it. -/
def chainText (targets : List (List Char)) (value : List Char) : List Char :=
  targets.foldr (fun target rest => target ++ '=' :: rest) value

/-- A chain of target lists is cut at the equals signs between them. -/
theorem assignedFrom_chain {targets : List (List Char)} (htargets : ∀ cs ∈ targets, Compared cs)
    {value : List Char} (hvalue : Calm 0 value) (before : List Char) (done : List (List Char))
    (hne : done ≠ [] ∨ targets ≠ []) :
    assignedFrom 0 before [] done (chainText targets value) =
      some ((done.reverse ++ targets).flatMap targetNames) := by
  induction targets generalizing before done with
  | nil =>
    have hend : done ≠ [] := hne.resolve_right (fun h => h rfl)
    have hread := assignedFrom_calm hvalue before [] done []
    rw [List.append_nil] at hread
    rw [chainText, List.foldr_nil, hread, assignedFrom, if_neg (by simpa using hend),
      List.append_nil]
  | cons cs targets ih =>
    obtain ⟨hcs, htargets⟩ := List.forall_mem_cons.1 htargets
    have hrest : (chainText targets value).head? ≠ some '=' := by
      cases targets with
      | nil => exact head?_of_calm hvalue
      | cons cs' targets =>
        obtain ⟨c, more, rfl, hc⟩ := (htargets cs' (.head _)).head?
        simpa [chainText] using hc
    have hchain : chainText (cs :: targets) value = cs ++ '=' :: chainText targets value := rfl
    rw [hchain, assignedFrom_plain hcs _ _ hrest, ih htargets _ _ (.inl (List.cons_ne_nil _ _)),
      List.reverse_cons, List.append_assoc]
    rfl

/-- Of a target list with an operator behind it the operator is dropped. -/
theorem assignedNames?_augmented {cs operator : List Char} (h : Segment cs)
    (hoperator : operator ∈ augmentedOperators) {rest : List Char} (hrest : rest.head? ≠ some '=') :
    assignedNames? (cs ++ (operator ++ '=' :: rest)) = some (targetNames cs) := by
  have hchars : ∀ operator ∈ augmentedOperators, (operator.all fun c => decide ((c != '=') = true ∧
      Bracket.isBracket c = false ∧ (isOperatorChar c || c == '<' || c == '>') = true)) = true := by
    decide
  have hchar : ∀ c ∈ operator, (c != '=') = true ∧ Bracket.isBracket c = false ∧
      (isOperatorChar c || c == '<' || c == '>') = true := fun c hc =>
    of_decide_eq_true (List.all_eq_true.1 (hchars operator hoperator) c hc)
  have hnested : Nested (· != '=') (cs ++ operator) :=
    h.nested.append (.of_forall fun c hc => ⟨(hchar c hc).1, (hchar c hc).2.1⟩)
  obtain ⟨front, c, hcs, hc⟩ := h.last
  have hstop : (isOperatorChar c || c == '<' || c == '>') = false := by
    rw [isOperatorChar_of_not_mem hc, beq_of_not_mem_operatorChars hc (by decide),
      beq_of_not_mem_operatorChars hc (by decide)]
    rfl
  have hdrop : (operator.reverse ++ cs.reverse).dropWhile
      (fun c => isOperatorChar c || c == '<' || c == '>') = cs.reverse := by
    rw [List.dropWhile_append_of_pos fun c hc =>
      (hchar c (List.mem_reverse.1 hc)).2.2, hcs, List.reverse_append,
      List.reverse_singleton, List.singleton_append, List.dropWhile_cons_of_neg (by simp [hstop])]
  rw [assignedNames?, ← List.append_assoc, assignedFrom_calm (hnested.calm (by decide)),
    hnested.foldl_depth, assignedFrom, if_pos ⟨rfl, rfl⟩, List.reverse_append, List.append_nil,
    equalsRole_augmented hoperator _ hrest]
  dsimp only
  rw [hdrop, List.reverse_reverse]

/-- The type of an annotation is not looked at. -/
theorem targetNames_annotated (cs hint : List Char) :
    targetNames (cs ++ ':' :: hint) = targetNames cs := by
  have htake : (cs ++ ':' :: hint).takeWhile (· != ':') = cs.takeWhile (· != ':') := by
    induction cs with
    | nil => rfl
    | cons c cs ih =>
      rw [List.cons_append, List.takeWhile_cons, List.takeWhile_cons, ih]
  rw [targetNames_eq, targetNames_eq, htake]

/-! ## Assignments -/

/-- The type of an annotation, as it is written: outside brackets it has no equals signs but those
of comparisons. -/
abbrev Hint :=
  { cs : List Char // Compared cs }

/-- The value of an assignment, as it is written: every equals sign in it is inside brackets. -/
abbrev Value :=
  { cs : List Char // Calm 0 cs }

/-- An operator of augmented assignments, as it is written. -/
abbrev Operator :=
  { cs : List Char // cs ∈ augmentedOperators }

/-- An assignment: a value to one target list or to several, one with an annotation, or one with an
operator. -/
inductive Assignment where
  | chain (first : Targets) (more : List Targets) (value : Value)
  | annotated (target : Targets) (hint : Hint) (value : Value)
  | augmented (target : Targets) (operator : Operator) (value : Value)

namespace Assignment

/-- The target lists of the assignment. -/
def lists : Assignment → List Targets
  | chain first more _ => first :: more
  | annotated target _ _ => [target]
  | augmented target _ _ => [target]

/-- The assignment as it is written. -/
def text : Assignment → List Char
  | chain first more value => chainText ((first :: more).map Targets.text) value.1
  | annotated target hint value =>
    target.text ++ ':' :: (hint.1 ++ '=' :: value.1)
  | augmented target operator value => target.text ++ (operator.1 ++ '=' :: value.1)

/-- The names that the assignment binds, in their order. -/
def names (a : Assignment) : List String :=
  a.lists.flatMap Targets.names

/-- The items of its target lists, as they are read. -/
def read (a : Assignment) : List Item :=
  a.lists.flatMap Targets.read

theorem filterMap_name_read (a : Assignment) : a.read.filterMap Item.name = a.names := by
  rw [read, List.filterMap_flatMap, names]
  exact congrArg a.lists.flatMap (funext Targets.filterMap_name_read)

theorem filterMap_found?_read (a : Assignment) :
    a.read.filterMap Item.found? = a.lists.flatMap fun ts => targetNames ts.text := by
  rw [read, List.filterMap_flatMap]
  exact congrArg a.lists.flatMap (funext fun ts => ts.targetNames_text.symm)

theorem found?_of_mem_read (a : Assignment) {i : Item} (hi : i ∈ a.read) {name : String}
    (hname : i.name = some name) : i.found? = some name ∨ i.found? = none := by
  obtain ⟨ts, -, hi⟩ := List.mem_flatMap.1 hi
  exact ts.found?_of_mem_read hi hname

/-- The names that are read off an assignment are those of the items of its target lists. -/
theorem assignedNames?_text (a : Assignment) :
    assignedNames? a.text = some (a.read.filterMap Item.found?) := by
  rw [filterMap_found?_read]
  cases a with
  | chain first more value =>
    have hcompared : ∀ cs ∈ (first :: more).map Targets.text, Compared cs := by
      intro cs hcs
      obtain ⟨ts, -, rfl⟩ := List.mem_map.1 hcs
      exact .one ts.segment
    rw [text, assignedNames?, assignedFrom_chain hcompared value.2 [] [] (.inr (by simp))]
    simp [lists, List.flatMap_map]
  | annotated target hint value =>
    have hcolon : Nested (· != '=') (target.text ++ [':']) :=
      target.segment.nested.append (.char (by decide) (by decide) (.nil _))
    have hcompared : Compared (target.text ++ ':' :: hint.1) := by
      have hprepend := hint.2.prepend hcolon
      rwa [List.append_assoc] at hprepend
    have htext : (annotated target hint value).text =
        chainText [target.text ++ ':' :: hint.1] value.1 := by
      simp [text, chainText]
    rw [htext, assignedNames?, assignedFrom_chain (by simpa using hcompared) value.2 [] []
      (.inr (List.cons_ne_nil _ _))]
    simp [lists, targetNames_annotated]
  | augmented target operator value =>
    rw [text, assignedNames?_augmented target.segment operator.2 (head?_of_calm value.2), lists]
    simp

end Assignment

section Leaving

variable {α β : Type} {f g : α → Option β} {l : List α} (h : ∀ a ∈ l, f a = g a ∨ f a = none)

include h

theorem length_filterMap_le : (l.filterMap f).length ≤ (l.filterMap g).length := by
  induction l with
  | nil => exact Nat.le_refl _
  | cons a l ih =>
    obtain ⟨ha, hl⟩ := List.forall_mem_cons.1 h
    have hle := ih hl
    rw [List.filterMap_cons, List.filterMap_cons]
    rcases ha with ha | ha <;> rw [ha] <;> cases g a <;> simp only [List.length_cons] <;> omega

/-- Two readings of a list, of which the one differs from the other only in what it leaves out, give
the same where nothing is left out, and nowhere else. -/
theorem filterMap_eq_filterMap_iff : l.filterMap f = l.filterMap g ↔ ∀ a ∈ l, f a = g a := by
  induction l with
  | nil => exact iff_of_true rfl nofun
  | cons a l ih =>
    obtain ⟨ha, hl⟩ := List.forall_mem_cons.1 h
    rw [List.filterMap_cons, List.filterMap_cons, List.forall_mem_cons, ← ih hl]
    cases hg : g a with
    | none =>
      have hf : f a = none := ha.elim (·.trans hg) id
      simp [hf]
    | some b =>
      rcases ha with hf | hf
      · simp [hf, hg]
      · have hlength := length_filterMap_le hl
        rw [hf]
        refine iff_of_false (fun heq => ?_) nofun
        have hlonger : l.filterMap f = b :: l.filterMap g := heq
        rw [hlonger] at hlength
        exact absurd hlength (Nat.not_succ_le_self _)

end Leaving

/-- The names that are read off an assignment are those of its items, and an item is read as the name
that it shows: between two commas, up to the first colon of its target list, there is nothing but
that name, blanks, one run of opening brackets and stars in front and one run of closing brackets
behind. No name target is read as another name. So, where nothing but name targets is shown (and no
part of an index is), the names are those that the assignment binds if and only if every name target
is shown. -/
theorem names_read_of_assignment (a : Assignment) :
    assignedNames? a.text = some (a.read.filterMap Item.found?) ∧
      (∀ i ∈ a.read, ∀ name, i.found? = some name ↔ Shows i.text name) ∧
      (∀ i ∈ a.read, ∀ name, i.name = some name → i.found? = some name ∨ i.found? = none) ∧
      ((∀ i ∈ a.read, i.name = none → ∀ name, ¬Shows i.text name) →
        (assignedNames? a.text = some a.names ↔
          ∀ i ∈ a.read, ∀ name, i.name = some name → Shows i.text name)) := by
  have htext := a.assignedNames?_text
  refine ⟨htext, fun i _ name => i.found?_eq_some_iff, fun i hi name => a.found?_of_mem_read hi, ?_⟩
  intro hnameless
  have hleft : ∀ i ∈ a.read, i.found? = i.name ∨ i.found? = none := by
    intro i hi
    cases hname : i.name with
    | none =>
      refine .inr (Option.eq_none_iff_forall_ne_some.2 fun name hfound => ?_)
      exact hnameless i hi hname name (Item.found?_eq_some_iff.1 hfound)
    | some name => exact a.found?_of_mem_read hi hname
  rw [htext, ← a.filterMap_name_read, Option.some.injEq, filterMap_eq_filterMap_iff hleft]
  refine forall₂_congr fun i hi => ?_
  constructor
  · intro hfound name hname
    exact Item.found?_eq_some_iff.1 (hfound.trans hname)
  · intro hshows
    cases hname : i.name with
    | none => exact (hleft i hi).elim (·.trans hname) id
    | some name => exact Item.found?_eq_some_iff.2 (hshows name hname)

/-- No blanks between two tokens. -/
def tight : Gap :=
  ⟨[], List.forall_mem_nil _⟩

/-- One blank between two tokens. -/
def space : Gap :=
  ⟨[' '], List.forall_mem_singleton.2 (by decide)⟩

/-- A list of targets with a starred one, and a slice: `(first, *rest), d[a:b] = pair`. -/
def slicedAssignment : Assignment :=
  .chain
    (.more tight
      (.group false
        (.more tight (.name ⟨"first".toList, by decide⟩) tight
          (.one space (.starred tight (.name ⟨"rest".toList, by decide⟩)) tight)))
      tight
      (.one space
        (.place (.subscript ⟨['d'], by decide, .char (by decide) (by decide) (.nil _)⟩ tight
          ⟨"a:b".toList, .of_all (by decide)⟩))
        space))
    [] ⟨" pair".toList, (Nested.of_all (by decide)).calm (p := (· != '=')) rfl⟩

theorem slicedAssignment_names_read :
    slicedAssignment.text = "(first, *rest), d[a:b] = pair".toList ∧
      slicedAssignment.names = ["first", "rest"] ∧
      assignedNames? slicedAssignment.text = some slicedAssignment.names := by
  obtain ⟨-, hfound, -, hiff⟩ := names_read_of_assignment slicedAssignment
  have hnameless : ∀ i ∈ slicedAssignment.read, i.name = none → i.found? = none := by
    decide +kernel
  have hnamed : ∀ i ∈ slicedAssignment.read, i.name ≠ none → i.found? = i.name := by
    decide +kernel
  refine ⟨by decide +kernel, by decide +kernel, (hiff ?_).2 ?_⟩
  · intro i hi hname name hshows
    have hnone := hnameless i hi hname
    rw [(hfound i hi name).2 hshows] at hnone
    cases hnone
  · intro i hi name hname
    refine (hfound i hi name).1 ((hnamed i hi ?_).trans hname)
    simp [hname]

/-- A subscript with two indices: `d[i, j] = 1`. -/
def subscriptedAssignment : Assignment :=
  .chain
    (.one tight
      (.place (.subscript ⟨['d'], by decide, .char (by decide) (by decide) (.nil _)⟩ tight
        ⟨"i, j".toList, .of_all (by decide)⟩))
      space)
    [] ⟨" 1".toList, (Nested.of_all (by decide)).calm (p := (· != '=')) rfl⟩

/-- A subscript target binds nothing, but the last part of its index is read as a name. -/
theorem not_forall_names_read :
    subscriptedAssignment.text = "d[i, j] = 1".toList ∧ subscriptedAssignment.names = [] ∧
      assignedNames? subscriptedAssignment.text = some ["j"] ∧
      ¬∀ a : Assignment, assignedNames? a.text = some a.names := by
  have hread : assignedNames? subscriptedAssignment.text = some ["j"] := by decide +kernel
  refine ⟨by decide +kernel, by decide +kernel, hread, fun h => ?_⟩
  have hnames := h subscriptedAssignment
  rw [hread] at hnames
  exact absurd hnames (by decide)

end Reparse.Statement
