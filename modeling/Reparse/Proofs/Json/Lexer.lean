import Mathlib.Data.List.Forall2
import Mathlib.Data.List.TakeWhile
import Reparse.Json.Lexer
import Reparse.Json.Printer

/-!
The tokens of what has been written. `Spells` says that characters are read as given tokens whatever
has been read before them, and leave the automaton where the next mark is not taken for a part of
them; so what is spelled on both sides of a mark can be put together. Main statement: a value whose
strings have texts is written as a text that spells its tokens.
-/

namespace Reparse.Json

/-- Every string and every key has a text, and every number is one that is kept as it is written or
an integer. -/
inductive Proper : Json → Prop where
  | null : Proper .null
  | bool (b : Bool) : Proper (.bool b)
  | integer (n : Int) : Proper (.integer n)
  | numeral {text : String} : numberValue? text.toList = some (.numeral text) →
      Proper (.numeral text)
  | text (s : String) : Proper (.text s)
  | array {items : List Json} : (∀ v ∈ items, Proper v) → Proper (.array items)
  | object {members : List (Option String × Json)} : (∀ m ∈ members, m.1.isSome = true) →
      (∀ m ∈ members, Proper m.2) → Proper (.object members)

mutual

/-- The tokens of a value. -/
def tokens : Json → List Token
  | .array items => .openArray :: itemTokens items ++ [.closeArray]
  | .object members => .openObject :: memberTokens members ++ [.closeObject]
  | v => [.value v]

/-- The tokens of the items of an array. -/
def itemTokens : List Json → List Token
  | [] => []
  | [v] => tokens v
  | v :: w :: rest => tokens v ++ .comma :: itemTokens (w :: rest)

/-- The tokens of the members of an object. -/
def memberTokens : List (Option String × Json) → List Token
  | [] => []
  | [(key, v)] => .value (.string key) :: .colon :: tokens v
  | (key, v) :: m :: rest =>
    .value (.string key) :: .colon :: tokens v ++ .comma :: memberTokens (m :: rest)

end

/-! ## Reading on -/

/-- Reading leads from one state to the other. -/
abbrev Leads {State Symbol : Type} (step : State → Symbol → Option State) (s : State)
    (read : List Symbol) (s' : State) : Prop :=
  read.foldlM step s = some s'

section Leads

variable {State Symbol : Type} {step : State → Symbol → Option State} {s s' s'' : State}
  {a : Symbol} {read more : List Symbol}

theorem Leads.cons (h : step s a = some s') (h' : Leads step s' read s'') :
    Leads step s (a :: read) s'' := by
  rw [Leads, List.foldlM_cons, h]
  exact h'

theorem Leads.append (h : Leads step s read s') (h' : Leads step s' more s'') :
    Leads step s (read ++ more) s'' := by
  rw [Leads, List.foldlM_append, h]
  exact h'

end Leads

/-- The characters that are tokens by themselves. -/
def marks : List Char := ['[', ']', '{', '}', ',', ':']

namespace Lexer

/-- All tokens so far are complete, or the last one is as soon as a mark or the end follows. -/
structure Stands (l : Lexer) (behind : List Token) : Prop where
  step_mark : ∀ c ∈ marks, l.step c = begin behind c
  finish : l.finish = some behind

theorem stands_between (behind : List Token) : Stands ⟨.between, behind⟩ behind :=
  ⟨fun _ _ => rfl, rfl⟩

end Lexer

open Lexer

/-- The characters are read as the tokens, whatever is behind them. -/
def Spells (cs : List Char) (ts : List Token) : Prop :=
  ∀ behind, ∃ l, Leads step ⟨.between, behind⟩ cs l ∧ l.Stands (ts.reverse ++ behind)

theorem spells_nil : Spells [] [] :=
  fun behind => ⟨_, rfl, stands_between behind⟩

/-- What is spelled on both sides of a mark. -/
theorem Spells.mark {cs cs' : List Char} {ts ts' : List Token} {c : Char} {t : Token}
    (h : Spells cs ts) (hc : c ∈ marks)
    (hbegin : ∀ behind, begin behind c = some ⟨.between, t :: behind⟩) (h' : Spells cs' ts') :
    Spells (cs ++ c :: cs') (ts ++ t :: ts') := by
  intro behind
  obtain ⟨l, hl, hstands⟩ := h behind
  obtain ⟨l', hl', hstands'⟩ := h' (t :: (ts.reverse ++ behind))
  refine ⟨l', hl.append (.cons ((hstands.step_mark c hc).trans (hbegin _)) hl'), ?_⟩
  simpa using hstands'

/-! ## Words and numbers -/

theorem spells_word {letters : List Char} {v : Json}
    (hreads : ∀ behind, Leads step ⟨.between, behind⟩ letters ⟨.word letters.reverse, behind⟩)
    (hvalue : wordValue? letters = some v) : Spells letters [.value v] := by
  intro behind
  refine ⟨_, hreads behind, ?_, ?_⟩
  · intro c hc
    have hlower : marks.all (fun c => !c.isLower) = true := rfl
    have hother : c.isLower = false := by simpa using List.all_eq_true.1 hlower c hc
    simp [step, hother, hvalue]
  · simp [finish, hvalue]

/-- A character that can stand in a number. -/
def isNumberChar (c : Char) : Bool :=
  c.isDigit || c == '.' || c == 'e' || c == 'E' || c == '+' || c == '-'

theorem isDigit_of_isDigits {cs : List Char} (h : isDigits cs = true) {c : Char} (hc : c ∈ cs) :
    c.isDigit = true := by
  obtain ⟨n, hn⟩ := Option.isSome_iff_exists.1 h
  rw [Text.natural?, Option.ite_none_right_eq_some, Bool.and_eq_true] at hn
  exact List.all_eq_true.1 hn.1.2 c hc

theorem isNumberChar_of_isDigit {c : Char} (h : c.isDigit = true) : isNumberChar c = true := by
  simp [isNumberChar, h]

theorem isNumberChar_of_isExponent {cs : List Char} (h : isExponent cs = true) {c : Char}
    (hc : c ∈ cs) : isNumberChar c = true := by
  cases cs with
  | nil => cases hc
  | cons e cs =>
    obtain ⟨he, hdigits⟩ := Bool.and_eq_true_iff.1 h
    rcases List.mem_cons.1 hc with rfl | hc
    · rcases Bool.or_eq_true_iff.1 he with he | he <;> simp [isNumberChar, eq_of_beq he]
    · split at hdigits
      all_goals
        first
        | rcases List.mem_cons.1 hc with rfl | hc
          · rfl
          · exact isNumberChar_of_isDigit (isDigit_of_isDigits hdigits hc)
        | exact isNumberChar_of_isDigit (isDigit_of_isDigits hdigits hc)

theorem isNumberChar_of_isFraction {cs : List Char} (h : isFraction cs = true) {c : Char}
    (hc : c ∈ cs) : isNumberChar c = true := by
  unfold isFraction at h
  split at h
  · rename_i cs
    obtain ⟨hdigits, hexponent⟩ := Bool.and_eq_true_iff.1 h
    rcases List.mem_cons.1 hc with rfl | hc
    · rfl
    · rw [← List.takeWhile_append_dropWhile (p := Char.isDigit) (l := cs)] at hc
      rcases List.mem_append.1 hc with hc | hc
      · exact isNumberChar_of_isDigit (isDigit_of_isDigits hdigits hc)
      · exact isNumberChar_of_isExponent hexponent hc
  · exact isNumberChar_of_isExponent h hc

/-- The digits in front of a number, and what may follow them. -/
theorem magnitude_cases {cs : List Char}
    (hwhole : isIntegerPart (cs.takeWhile Char.isDigit) = true)
    (hrest : isFraction (cs.dropWhile Char.isDigit) = true) :
    (∃ c rest, cs = c :: rest ∧ c.isDigit = true) ∧ ∀ c ∈ cs, isNumberChar c = true := by
  constructor
  · cases cs with
    | nil => cases hwhole
    | cons c rest =>
      cases hdigit : c.isDigit with
      | true => exact ⟨c, rest, rfl, hdigit⟩
      | false =>
        rw [List.takeWhile_cons_of_neg (Bool.eq_false_iff.1 hdigit)] at hwhole
        cases hwhole
  · intro c hc
    rw [← List.takeWhile_append_dropWhile (p := Char.isDigit) (l := cs)] at hc
    rcases List.mem_append.1 hc with hc | hc
    · exact isNumberChar_of_isDigit (List.all_eq_true.1 List.all_takeWhile c hc)
    · exact isNumberChar_of_isFraction hrest hc

/-- A number begins with a digit or a minus, and nothing else stands in it than what can. -/
theorem exists_cons_of_numberValue? {chars : List Char} {v : Json}
    (h : numberValue? chars = some v) :
    ∃ c cs, chars = c :: cs ∧ (c = '-' ∨ c.isDigit = true) ∧ ∀ d ∈ cs, isNumberChar d = true := by
  unfold numberValue? at h
  split at h
  rename_i negative magnitude hsplit
  dsimp only at h
  rw [Option.ite_none_left_eq_some, Bool.or_eq_true, not_or] at h
  simp only [Bool.not_eq_true, Bool.not_eq_false'] at h
  obtain ⟨⟨c, rest, rfl, hdigit⟩, hall⟩ := magnitude_cases h.1.1 h.1.2
  split at hsplit
  · cases hsplit
    exact ⟨_, _, rfl, .inl rfl, hall⟩
  · cases hsplit
    exact ⟨c, rest, rfl, .inr hdigit, fun d hd => hall d (.tail _ hd)⟩

/-- Inside a number, all characters that can stand in one are added to it. -/
theorem reads_number {cs : List Char} (h : ∀ c ∈ cs, isNumberChar c = true)
    (chars : List Char) (behind : List Token) :
    Leads step ⟨.number chars, behind⟩ cs ⟨.number (cs.reverse ++ chars), behind⟩ := by
  induction cs generalizing chars with
  | nil => rfl
  | cons c cs ih =>
    obtain ⟨hc, hcs⟩ := List.forall_mem_cons.1 h
    have hstep : step ⟨.number chars, behind⟩ c = some ⟨.number (c :: chars), behind⟩ := if_pos hc
    rw [List.reverse_cons, List.append_assoc]
    exact .cons hstep (ih hcs (c :: chars))

theorem begin_number {c : Char} (h : c = '-' ∨ c.isDigit = true) (behind : List Token) :
    begin behind c = some ⟨.number [c], behind⟩ := by
  rcases h with rfl | h
  · rfl
  · have hne : ∀ d, d.isDigit = false → c ≠ d := by
      rintro d hd rfl
      cases h.symm.trans hd
    simp [begin, h, hne]

theorem spells_number {chars : List Char} {v : Json} (h : numberValue? chars = some v) :
    Spells chars [.value v] := by
  intro behind
  obtain ⟨c, cs, rfl, hc, hcs⟩ := exists_cons_of_numberValue? h
  refine ⟨_, .cons (begin_number hc behind) (reads_number hcs [c] behind), ?_, ?_⟩
  · intro d hd
    have hnumber : marks.all (fun c => !isNumberChar c) = true := rfl
    have hother : isNumberChar d = false := by simpa using List.all_eq_true.1 hnumber d hd
    have hstep : step ⟨.number (cs.reverse ++ [c]), behind⟩ d =
        (numberValue? (cs.reverse ++ [c]).reverse).bind fun v => begin (.value v :: behind) d :=
      if_neg (Bool.eq_false_iff.1 hother)
    simp [hstep, h]
  · simp [finish, h]

/-- A number that is written has no zero too many. -/
theorem isIntegerPart_digits (n : Nat) : isIntegerPart (Text.digits n) = true := by
  by_cases hzero : n = 0
  · rw [hzero]
    rfl
  · have hhead := Text.head?_digits_ne hzero
    have hall : (Text.digits n).all Char.isDigit = true :=
      List.all_eq_true.2 fun _ => Text.isDigit_of_mem_digits
    obtain ⟨c, cs, hcs⟩ := List.exists_cons_of_ne_nil (Text.digits_ne_nil n)
    rw [hcs] at hhead hall ⊢
    have hc : c ≠ '0' := fun h => hhead (congrArg some h)
    unfold isIntegerPart
    split
    · rename_i heq
      cases heq
    · rename_i heq
      exact absurd (List.cons.inj heq).1 hc
    · rename_i heq
      cases heq
      simp [hc, hall]

/-- An integer that is written has its value. -/
theorem numberValue?_signedDigits (n : Int) :
    numberValue? (Text.signedDigits n) = some (.integer n) := by
  have hdigits : ∀ m, (Text.digits m).takeWhile Char.isDigit = Text.digits m ∧
      (Text.digits m).dropWhile Char.isDigit = [] := fun m =>
    ⟨List.takeWhile_eq_self_iff.2 fun _ => Text.isDigit_of_mem_digits,
      List.dropWhile_eq_nil_iff.2 fun _ => Text.isDigit_of_mem_digits⟩
  cases n with
  | ofNat m =>
    have hminus : ∀ cs, Text.digits m ≠ '-' :: cs := by
      intro cs hcs
      have hdigit : '-'.isDigit = true := Text.isDigit_of_mem_digits (hcs ▸ List.mem_cons_self)
      cases hdigit
    unfold numberValue? Text.signedDigits
    split
    rename_i negative magnitude hsplit
    split at hsplit
    · rename_i cs hcs
      exact absurd hcs (hminus cs)
    · cases hsplit
      dsimp only
      rw [(hdigits m).1, (hdigits m).2, isIntegerPart_digits, Text.digitsValue_digits]
      rfl
  | negSucc m =>
    have hzero : Text.digits (m + 1) ≠ ['0'] :=
      fun h => Text.head?_digits_ne (Nat.succ_ne_zero m) (congrArg List.head? h)
    simp only [numberValue?, Text.signedDigits, hdigits, isIntegerPart_digits,
      Text.digitsValue_digits, beq_eq_false_iff_ne.2 hzero]
    rfl

/-! ## Strings -/

/-- A unit is read for the character. Only control characters are written by their numbers. -/
inductive StandsFor : StringUnit → Char → Prop where
  | plain (c : Char) : StandsFor (.plain c) c
  | code {c : Char} : c.toNat < 0x20 → StandsFor (.code c.toNat) c

theorem stringText_code {n : Nat} (h : n < 0x20) (text : List Char) (rest : List StringUnit) :
    stringText text (.code n :: rest) = stringText (Char.ofNat n :: text) rest := by
  have hlow : ¬ 0xDC00 ≤ n := by omega
  have hsurrogate : ¬ 0xD800 ≤ n := by omega
  cases rest with
  | nil => simp [stringText, hsurrogate]
  | cons u rest => cases u <;> simp [stringText, hlow, hsurrogate]

/-- Units that are read for characters put them together. -/
theorem stringText_eq {units : List StringUnit} {chars : List Char}
    (h : List.Forall₂ StandsFor units chars) (text : List Char) :
    stringText text units = some (String.ofList (chars.reverse ++ text)) := by
  induction h generalizing text with
  | nil => rfl
  | @cons u c units chars hu _ ih =>
    rw [List.reverse_cons, List.append_assoc]
    cases hu with
    | plain => exact ih (c :: text)
    | code hlow =>
      rw [stringText_code hlow, Char.ofNat_toNat]
      exact ih (c :: text)

theorem hexValue?_hexDigit : ∀ n < 16, hexValue? (hexDigit n) = some n := by
  decide

/-- A character as it is written in a string. -/
theorem reads_escaped (c : Char) : ∃ u, StandsFor u c ∧ ∀ units behind,
    Leads step ⟨.string units, behind⟩ (escaped c) ⟨.string (u :: units), behind⟩ := by
  unfold escaped
  split
  iterate 7 exact ⟨_, .plain _, fun _ _ => rfl⟩
  rename_i hquote hbackslash _ _ _ _ _
  split
  · rename_i hlow
    have hhigh := hexValue?_hexDigit (c.toNat / 16) (by omega)
    have hdigit := hexValue?_hexDigit (c.toNat % 16) (by omega)
    have hzero : hexValue? '0' = some 0 := rfl
    refine ⟨_, .code hlow, fun units behind => ?_⟩
    simp [Leads, step, hhigh, hdigit, hzero]
    omega
  · rename_i hlow
    refine ⟨_, .plain c, fun units behind => .cons ?_ rfl⟩
    simp only [step, beq_iff_eq, if_neg hquote, if_neg hbackslash, if_neg hlow]

theorem reads_flatMap_escaped (cs : List Char) {units : List StringUnit} {chars : List Char}
    (h : List.Forall₂ StandsFor units chars) (behind : List Token) :
    ∃ units', List.Forall₂ StandsFor units' (cs.reverse ++ chars) ∧
      Leads step ⟨.string units, behind⟩ (cs.flatMap escaped) ⟨.string units', behind⟩ := by
  induction cs generalizing units chars with
  | nil => exact ⟨units, h, rfl⟩
  | cons c cs ih =>
    obtain ⟨u, hu, hread⟩ := reads_escaped c
    obtain ⟨units', hunits, hreads⟩ := ih (.cons hu h)
    refine ⟨units', ?_, ?_⟩
    · rw [List.reverse_cons, List.append_assoc]
      exact hunits
    · exact (hread units behind).append hreads

theorem spells_quoted (s : String) : Spells (quoted s) [.value (.text s)] := by
  intro behind
  obtain ⟨units, hunits, hreads⟩ := reads_flatMap_escaped s.toList .nil behind
  refine ⟨_, .cons rfl (hreads.append (.cons rfl rfl)), ?_⟩
  have htext := stringText_eq hunits []
  rw [List.append_nil, List.append_nil, List.reverse_reverse, String.ofList_toList] at htext
  rw [htext]
  exact stands_between _

/-! ## Containers -/

theorem spells_renderItems {items : List Json}
    (h : ∀ v ∈ items, Spells (render v) (tokens v)) :
    Spells (renderItems items) (itemTokens items) := by
  induction items with
  | nil => exact spells_nil
  | cons v items ih =>
    obtain ⟨hv, hitems⟩ := List.forall_mem_cons.1 h
    cases items with
    | nil => exact hv
    | cons w rest => exact hv.mark (by decide) (fun _ => rfl) (ih hitems)

theorem spells_member {key : Option String} (hkey : key.isSome = true) {v : Json}
    (hv : Spells (render v) (tokens v)) :
    Spells (quoted (key.getD "") ++ ':' :: render v)
      (.value (.string key) :: .colon :: tokens v) := by
  obtain ⟨s, rfl⟩ := Option.isSome_iff_exists.1 hkey
  exact (spells_quoted s).mark (by decide) (fun _ => rfl) hv

theorem spells_renderMembers {members : List (Option String × Json)}
    (hkeys : ∀ m ∈ members, m.1.isSome = true)
    (h : ∀ m ∈ members, Spells (render m.2) (tokens m.2)) :
    Spells (renderMembers members) (memberTokens members) := by
  induction members with
  | nil => exact spells_nil
  | cons m members ih =>
    obtain ⟨hkey, hkeys⟩ := List.forall_mem_cons.1 hkeys
    obtain ⟨hm, hmembers⟩ := List.forall_mem_cons.1 h
    have hmember := spells_member hkey hm
    cases members with
    | nil => exact hmember
    | cons m' rest => exact hmember.mark (by decide) (fun _ => rfl) (ih hkeys hmembers)

/-- What is spelled between an opening and a closing mark. -/
theorem Spells.enclose {cs : List Char} {ts : List Token} {c c' : Char} {t t' : Token}
    (h : Spells cs ts) (hc : c ∈ marks) (hc' : c' ∈ marks)
    (hopen : ∀ behind, begin behind c = some ⟨.between, t :: behind⟩)
    (hclose : ∀ behind, begin behind c' = some ⟨.between, t' :: behind⟩) :
    Spells (c :: cs ++ [c']) (t :: ts ++ [t']) :=
  spells_nil.mark hc hopen (h.mark hc' hclose spells_nil)

/-- A value is written as a text of its tokens. -/
theorem Proper.spells {v : Json} (h : Proper v) : Spells (render v) (tokens v) := by
  induction h with
  | null => exact spells_word (fun _ => rfl) rfl
  | bool b => cases b <;> exact spells_word (fun _ => rfl) rfl
  | integer n => exact spells_number (numberValue?_signedDigits n)
  | numeral hvalue => exact spells_number hvalue
  | text s => exact spells_quoted s
  | array _ ih =>
    have hitems := spells_renderItems ih
    exact hitems.enclose (by decide) (by decide) (fun _ => rfl) fun _ => rfl
  | object hkeys _ ih =>
    have hmembers := spells_renderMembers hkeys ih
    exact hmembers.enclose (by decide) (by decide) (fun _ => rfl) fun _ => rfl

/-- The tokens of what is written are those of the value. -/
theorem Proper.tokens?_render {v : Json} (h : Proper v) : tokens? (render v) = some (tokens v) := by
  obtain ⟨l, hl, hstands⟩ := h.spells []
  have hread : (render v).foldlM step initial = some l := hl
  simp [tokens?, hread, hstands.finish]

end Reparse.Json
