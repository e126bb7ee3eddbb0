import Mathlib.Data.List.Chain
import Reparse.Proofs.Statement.Assignments

/-!
Assignments told from comparisons. A text is taken as its operators and the characters between them.
Where no two operators stand side by side it is an assignment exactly if some operator that assigns
stands outside brackets.
-/

namespace Reparse.Statement

open Reparse.Bracket (Nested Calm)

/-! ## Operators and the text between them -/

/-- The equals sign and the operators of augmented assignments. -/
def assigningOperators : List (List Char) :=
  ['='] :: augmentedOperators.map (· ++ ['='])

/-- The operators that have an equals sign and do not assign. -/
def equalsOperators : List (List Char) :=
  [":=".toList, "==".toList, "!=".toList, "<=".toList, ">=".toList]

/-- The operators without an equals sign: those of arithmetic, shifts and comparisons, the arrow and
the colon. -/
def plainOperators : List (List Char) :=
  augmentedOperators ++ ["<", ">", ":", "->"].map String.toList

/-- An operator, or a character that is no part of one: of a name, a number or a quote, a comma, a
dot, a blank or a bracket. -/
inductive Token where
  | char (c : Char) (h : c ∉ operatorChars)
  | operator (op : List Char) (h : op ∈ assigningOperators ++ (equalsOperators ++ plainOperators))

namespace Token

/-- The token as it is written. -/
def text : Token → List Char
  | char c _ => [c]
  | operator op _ => op

def isOperator : Token → Bool
  | char _ _ => false
  | operator _ _ => true

/-- The token is an operator that assigns. -/
def Assigns : Token → Prop
  | char _ _ => False
  | operator op _ => op ∈ assigningOperators

instance (t : Token) : Decidable t.Assigns :=
  match t with
  | char _ _ => inferInstanceAs (Decidable False)
  | operator op _ => inferInstanceAs (Decidable (op ∈ assigningOperators))

end Token

/-- The tokens as they are written. -/
def tokensText (ts : List Token) : List Char :=
  ts.flatMap Token.text

/-- No operator stands directly beside another one. -/
def Spaced (ts : List Token) : Prop :=
  ts.IsChain fun t t' => ¬(t.isOperator = true ∧ t'.isOperator = true)

instance (ts : List Token) : Decidable (Spaced ts) :=
  inferInstanceAs (Decidable (ts.IsChain _))

/-- Some operator that assigns stands outside brackets, from the given depth on. -/
def AssignsFrom (depth : Nat) (ts : List Token) : Prop :=
  ∃ front t back, ts = front ++ t :: back ∧ t.Assigns ∧
    (tokensText front).foldl Bracket.depth depth = 0

theorem not_assignsFrom_nil (depth : Nat) : ¬AssignsFrom depth [] := by
  rintro ⟨front, t, back, h, -⟩
  simp at h

theorem assignsFrom_cons_iff {depth : Nat} {t : Token} {ts : List Token} :
    AssignsFrom depth (t :: ts) ↔
      (t.Assigns ∧ depth = 0) ∨ AssignsFrom (t.text.foldl Bracket.depth depth) ts := by
  constructor
  · rintro ⟨front, t', back, h, hassigns, hdepth⟩
    cases front with
    | nil =>
      obtain ⟨rfl, -⟩ := List.cons.inj h
      exact .inl ⟨hassigns, hdepth⟩
    | cons first front =>
      obtain ⟨rfl, rfl⟩ := List.cons.inj h
      rw [tokensText, List.flatMap_cons, List.foldl_append] at hdepth
      exact .inr ⟨front, t', back, rfl, hassigns, hdepth⟩
  · rintro (⟨hassigns, hdepth⟩ | ⟨front, t', back, rfl, hassigns, hdepth⟩)
    · exact ⟨[], t, ts, rfl, hassigns, hdepth⟩
    · refine ⟨t :: front, t', back, rfl, hassigns, ?_⟩
      rwa [tokensText, List.flatMap_cons, List.foldl_append]

/-! ## Reading operators -/

/-- No operator has a bracket. -/
theorem nested_operator {op : List Char}
    (h : op ∈ assigningOperators ++ (equalsOperators ++ plainOperators)) :
    Nested (fun _ => true) op := by
  have hall : ∀ op ∈ assigningOperators ++ (equalsOperators ++ plainOperators),
      (op.all fun c => true && !Bracket.isBracket c) = true := by decide
  exact .of_all (hall op h)

theorem nested_plainOperator {op : List Char} (h : op ∈ plainOperators) :
    Nested (· != '=') op := by
  have hall : ∀ op ∈ plainOperators,
      (op.all fun c => c != '=' && !Bracket.isBracket c) = true := by decide
  exact .of_all (hall op h)

theorem foldl_depth_operator {op : List Char}
    (h : op ∈ assigningOperators ++ (equalsOperators ++ plainOperators)) (depth : Nat) :
    op.foldl Bracket.depth depth = depth :=
  (nested_operator h).foldl_depth depth

section Reading

variable {before target rest : List Char} {targets : List (List Char)}

/-- A character that is no part of an operator is read on. -/
theorem assignedFrom_char {c : Char} (h : c ∉ operatorChars) (depth : Nat) :
    assignedFrom depth before target targets (c :: rest) =
      assignedFrom (Bracket.depth depth c) (c :: before) (c :: target) targets rest := by
  have hne : c ≠ '=' := fun heq => h (heq ▸ by decide)
  rw [assignedFrom, if_neg fun hequals => hne hequals.1]

/-- Inside brackets, and wherever it does not assign, an operator is read on. -/
theorem assignedFrom_operator {op : List Char}
    (h : op ∈ assigningOperators ++ (equalsOperators ++ plainOperators)) {depth : Nat}
    (hassigns : ¬(op ∈ assigningOperators ∧ depth = 0))
    (hbefore : ∀ c ∈ before.head?, c ∉ operatorChars) :
    assignedFrom depth before target targets (op ++ rest) =
      assignedFrom depth (op.reverse ++ before) (op.reverse ++ target) targets rest := by
  have hcalm : ∀ {depth}, Calm depth op → assignedFrom depth before target targets (op ++ rest) =
      assignedFrom depth (op.reverse ++ before) (op.reverse ++ target) targets rest := by
    intro depth hop
    rw [assignedFrom_calm hop, foldl_depth_operator h]
  cases depth with
  | succ depth => exact hcalm ((nested_operator h).calm_of_pos (Nat.succ_pos depth))
  | zero =>
    rcases List.mem_append.1 h with hop | hop
    · exact absurd ⟨hop, rfl⟩ hassigns
    rcases List.mem_append.1 hop with hop | hop
    · have hpair : ∀ op ∈ equalsOperators,
          op.headD ' ' ∈ comparisonChars ∧ op = [op.headD ' ', '='] := by decide
      obtain ⟨x, hx, rfl⟩ : ∃ x ∈ comparisonChars, op = [x, '='] := ⟨_, hpair op hop⟩
      exact assignedFrom_pair hx hbefore target targets rest
    · exact hcalm ((nested_plainOperator hop).calm rfl)

theorem equalsRole_eq_plain (hbefore : ∀ c ∈ before.head?, c ∉ operatorChars)
    {next : Option Char} (hnext : next ≠ some '=') : equalsRole before next = .plain := by
  cases before with
  | nil => simp [equalsRole, hnext]
  | cons c before => exact equalsRole_plain (hbefore c rfl) before hnext

/-- Once a target list has been read, the text is an assignment whatever follows. -/
theorem isSome_assignedFrom (hne : targets ≠ []) (depth : Nat) (cs : List Char) :
    (assignedFrom depth before target targets cs).isSome = true := by
  induction cs generalizing depth before target targets with
  | nil => simp [assignedFrom, hne]
  | cons c cs ih =>
    rw [assignedFrom]
    dsimp only
    split
    · exact ih hne _
    · rfl
    · exact ih (List.cons_ne_nil _ _) _

/-- Outside brackets an operator that assigns makes the text an assignment. -/
theorem isSome_assignedFrom_assigning {op : List Char} (h : op ∈ assigningOperators)
    (hbefore : ∀ c ∈ before.head?, c ∉ operatorChars)
    (hrest : ∀ c ∈ rest.head?, c ∉ operatorChars) :
    (assignedFrom 0 before target targets (op ++ rest)).isSome = true := by
  have hnext : rest.head? ≠ some '=' := fun heq => hrest '=' heq (by decide)
  rcases List.mem_cons.1 h with rfl | h
  · rw [List.singleton_append, assignedFrom, if_pos ⟨rfl, rfl⟩, equalsRole_eq_plain hbefore hnext]
    exact isSome_assignedFrom (List.cons_ne_nil _ _) _ _
  · obtain ⟨front, hfront, rfl⟩ := List.mem_map.1 h
    have hcalm : Calm 0 front :=
      (nested_plainOperator (List.mem_append_left _ hfront)).calm rfl
    have hdepth : front.foldl Bracket.depth 0 = 0 :=
      (nested_plainOperator (List.mem_append_left _ hfront)).foldl_depth 0
    rw [List.append_assoc, assignedFrom_calm hcalm, hdepth, List.singleton_append, assignedFrom,
      if_pos ⟨rfl, rfl⟩, equalsRole_augmented hfront _ hnext]
    rfl

end Reading

/-! ## Assignments -/

/-- Behind an operator the text goes on with no operator character. -/
theorem Spaced.head?_tokensText {t : Token} {ts : List Token} (h : Spaced (t :: ts))
    (ht : t.isOperator = true) : ∀ c ∈ (tokensText ts).head?, c ∉ operatorChars := by
  cases ts with
  | nil => nofun
  | cons t' ts =>
    have hnot := (List.isChain_cons_cons.1 h).1
    cases t' with
    | char c hc =>
      intro d hd
      obtain rfl : c = d := by simpa [tokensText, Token.text] using hd
      exact hc
    | operator op hop => exact absurd ⟨ht, rfl⟩ hnot

/-- What is read of the tokens is an assignment if a target list has been read already or some
operator assigns; the character in front of the tokens is part of an operator only if the first of
them is none. -/
theorem isSome_assignedFrom_tokensText (ts : List Token) (h : Spaced ts) (depth : Nat)
    (before target : List Char) (targets : List (List Char))
    (hbefore : ∀ t ∈ ts.head?, t.isOperator = true → ∀ c ∈ before.head?, c ∉ operatorChars) :
    (assignedFrom depth before target targets (tokensText ts)).isSome = true ↔
      targets ≠ [] ∨ AssignsFrom depth ts := by
  induction ts generalizing depth before target targets with
  | nil =>
    rw [or_iff_left (not_assignsFrom_nil depth), tokensText, List.flatMap_nil, assignedFrom]
    cases targets <;> simp
  | cons t ts ih =>
    have hts : Spaced ts := h.tail
    rw [assignsFrom_cons_iff, tokensText, List.flatMap_cons]
    cases t with
    | char c hc =>
      have hnot : ¬((Token.char c hc).Assigns ∧ depth = 0) := fun hassigns => hassigns.1
      rw [Token.text, List.singleton_append, assignedFrom_char hc, List.foldl_cons, List.foldl_nil,
        or_iff_right hnot]
      refine ih hts _ _ _ _ fun _ _ _ d hd => ?_
      obtain rfl := Option.some.inj hd
      exact hc
    | operator op hop =>
      have hbefore := hbefore _ rfl rfl
      rw [Token.text, foldl_depth_operator hop]
      by_cases hassigns : op ∈ assigningOperators ∧ depth = 0
      · obtain ⟨hmem, rfl⟩ := hassigns
        exact iff_of_true
          (isSome_assignedFrom_assigning hmem hbefore (h.head?_tokensText rfl))
          (.inr (.inl ⟨hmem, rfl⟩))
      · have hnot : ¬((Token.operator op hop).Assigns ∧ depth = 0) := hassigns
        rw [assignedFrom_operator hop hassigns hbefore, or_iff_right hnot]
        refine ih hts _ _ _ _ fun t ht hoperator => ?_
        -- the next token is no operator, since this one is
        obtain ⟨rest, rfl⟩ := List.head?_eq_some_iff.1 ht
        exact absurd ⟨rfl, hoperator⟩ (List.isChain_cons_cons.1 h).1

/-- A text in which no operator stands directly beside another one is an assignment if and only if an
equals sign or the operator of an augmented assignment stands outside brackets. -/
theorem isSome_assignedNames?_iff (ts : List Token) (h : Spaced ts) :
    (assignedNames? (tokensText ts)).isSome = true ↔ AssignsFrom 0 ts := by
  rw [assignedNames?, isSome_assignedFrom_tokensText ts h 0 [] [] [] (by simp)]
  simp

/-- The characters of a text without operators. -/
def chars (cs : List Char) (h : cs.any (operatorChars.contains ·) = false) : List Token :=
  cs.attach.map fun c => .char c.1 (by simpa using List.any_eq_false.1 h c.1 c.2)

/-- A shift with a comparison and an argument in brackets: `bits >>= (a <= b) == f(x=1)`. -/
def shiftedTokens : List Token :=
  chars "bits ".toList (by decide) ++ .operator ">>=".toList (by decide) ::
    (chars " (a ".toList (by decide) ++ .operator "<=".toList (by decide) ::
      (chars " b) ".toList (by decide) ++ .operator "==".toList (by decide) ::
        (chars " f(x".toList (by decide) ++ .operator ['='] (by decide) ::
          chars "1)".toList (by decide))))

theorem isSome_assignedNames?_shiftedTokens :
    tokensText shiftedTokens = "bits >>= (a <= b) == f(x=1)".toList ∧ Spaced shiftedTokens ∧
      (assignedNames? (tokensText shiftedTokens)).isSome = true := by
  have hspaced : Spaced shiftedTokens := by decide
  refine ⟨by decide, hspaced, (isSome_assignedNames?_iff shiftedTokens hspaced).2 ?_⟩
  exact ⟨chars "bits ".toList (by decide), .operator ">>=".toList (by decide), _, rfl, by decide,
    by decide⟩

end Reparse.Statement
