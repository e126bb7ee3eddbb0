import Mathlib.Data.List.TakeWhile
import Reparse.Statement.Bindings

/-!
How an item of a target list is read. An item is what stands between two commas, whatever their
depth; it is read as a name if it is one but for blanks, one run of opening brackets and stars in
front, and one run of closing brackets behind. A blank between two brackets ends the run, and then
nothing is read.
-/

namespace Reparse.Statement

/-- The characters that are dropped in front of a name: they open a list of targets or star a
target. -/
def isMark (c : Char) : Bool :=
  c == '(' || c == '[' || c == '*'

/-- The characters that are dropped behind a name: they close a list of targets. -/
def isEnd (c : Char) : Bool :=
  c == ')' || c == ']'

/-- The name that an item of a target list is read as. -/
def itemName? (item : List Char) : Option String :=
  trimmedName? (Text.stripEnd isEnd (Text.stripStart isMark (Text.trim item)))

theorem targetNames_eq (target : List Char) :
    targetNames target = ((target.takeWhile (· != ':')).splitOn ',').filterMap itemName? :=
  rfl

/-- The text is one run of characters of a class, with blanks around it. -/
def OneRun (p : Char → Bool) (cs : List Char) : Prop :=
  ∃ front run back, cs = front ++ run ++ back ∧ (∀ c ∈ front, Text.isBlank c = true) ∧
    (∀ c ∈ run, p c = true) ∧ ∀ c ∈ back, Text.isBlank c = true

/-- The item is a name but for one run of marks in front and one run of closing brackets behind. -/
def Shows (item : List Char) (name : String) : Prop :=
  ∃ front back, item = front ++ name.toList ++ back ∧ Text.isName name.toList = true ∧
    OneRun isMark front ∧ OneRun isEnd back

/-! ## Stripping -/

section Strip

variable {p : Char → Bool}

theorem exists_append_stripStart (p : Char → Bool) (cs : List Char) :
    ∃ front, cs = front ++ Text.stripStart p cs ∧ ∀ c ∈ front, p c = true :=
  ⟨cs.takeWhile p, List.takeWhile_append_dropWhile.symm, fun _ => List.mem_takeWhile_imp⟩

theorem exists_stripEnd_append (p : Char → Bool) (cs : List Char) :
    ∃ back, cs = Text.stripEnd p cs ++ back ∧ ∀ c ∈ back, p c = true := by
  obtain ⟨front, hfront, hp⟩ := exists_append_stripStart p cs.reverse
  refine ⟨front.reverse, ?_, by simpa using hp⟩
  have hreverse := congrArg List.reverse hfront
  rw [List.reverse_reverse, List.reverse_append] at hreverse
  exact hreverse

theorem exists_append_trim (cs : List Char) :
    ∃ front back, cs = front ++ Text.trim cs ++ back ∧ (∀ c ∈ front, Text.isBlank c = true) ∧
      ∀ c ∈ back, Text.isBlank c = true := by
  obtain ⟨front, hfront, hblank⟩ := exists_append_stripStart Text.isBlank cs
  obtain ⟨back, hback, hblank'⟩ := exists_stripEnd_append Text.isBlank (Text.trimStart cs)
  refine ⟨front, back, ?_, hblank, hblank'⟩
  rw [List.append_assoc]
  exact hfront.trans (congrArg (front ++ ·) hback)

/-- What does not belong to the class stops the stripping. -/
theorem dropWhile_append_word {word : List Char} (hne : word ≠ [])
    (hword : ∀ c ∈ word, p c = false) (front back : List Char) :
    (front ++ (word ++ back)).dropWhile p = front.dropWhile p ++ (word ++ back) := by
  obtain ⟨c, word, rfl⟩ := List.exists_cons_of_ne_nil hne
  induction front with
  | nil => simp [hword]
  | cons d front ih =>
    rw [List.cons_append, List.dropWhile_cons, List.dropWhile_cons, ih]
    split <;> rfl

theorem stripEnd_append_word {word : List Char} (hne : word ≠ [])
    (hword : ∀ c ∈ word, p c = false) (front back : List Char) :
    Text.stripEnd p (front ++ (word ++ back)) = front ++ (word ++ Text.stripEnd p back) := by
  have hreverse := dropWhile_append_word (by simpa using hne : word.reverse ≠ [])
    (by simpa using hword) back.reverse front.reverse
  unfold Text.stripEnd
  rw [List.reverse_append, List.reverse_append, List.append_assoc, hreverse]
  simp

/-- Nothing is left of a text in front of a name where it is one run. -/
theorem stripStart_eq_nil_iff (hp : ∀ c, p c = true → Text.isBlank c = false) (front : List Char) :
    Text.trimStart (Text.stripStart p (Text.trimStart front)) = [] ↔ OneRun p front := by
  unfold Text.trimStart Text.stripStart
  constructor
  · intro hnil
    refine ⟨front.takeWhile Text.isBlank, (front.dropWhile Text.isBlank).takeWhile p,
      (front.dropWhile Text.isBlank).dropWhile p, ?_, fun c => List.mem_takeWhile_imp,
      fun c => List.mem_takeWhile_imp, List.dropWhile_eq_nil_iff.1 hnil⟩
    rw [List.append_assoc, List.takeWhile_append_dropWhile, List.takeWhile_append_dropWhile]
  · rintro ⟨b, run, b', rfl, hb, hrun, hb'⟩
    rw [List.append_assoc, List.dropWhile_append_of_pos hb]
    have hblank : b'.dropWhile Text.isBlank = [] := List.dropWhile_eq_nil_iff.2 hb'
    cases run with
    | nil => simp [hblank]
    | cons c run =>
      have hc : Text.isBlank c = false := hp c (hrun c (.head _))
      have hsuffix : ∀ c ∈ b'.dropWhile p, Text.isBlank c = true :=
        fun c hc => hb' c ((List.dropWhile_suffix p).subset hc)
      rw [List.cons_append, List.dropWhile_cons_of_neg (by simp [hc]), ← List.cons_append,
        List.dropWhile_append_of_pos hrun]
      exact List.dropWhile_eq_nil_iff.2 hsuffix

theorem oneRun_reverse_iff (cs : List Char) : OneRun p cs.reverse ↔ OneRun p cs := by
  have hreverse : ∀ {cs}, OneRun p cs → OneRun p cs.reverse := by
    rintro _ ⟨b, run, b', rfl, hb, hrun, hb'⟩
    exact ⟨b'.reverse, run.reverse, b.reverse, by simp, by simpa using hb', by simpa using hrun,
      by simpa using hb⟩
  exact ⟨fun h => cs.reverse_reverse ▸ hreverse h, hreverse⟩

/-- Nothing is left of a text behind a name where it is one run. -/
theorem stripEnd_eq_nil_iff (hp : ∀ c, p c = true → Text.isBlank c = false) (back : List Char) :
    Text.trimEnd (Text.stripEnd p (Text.trimEnd back)) = [] ↔ OneRun p back := by
  rw [← oneRun_reverse_iff, ← stripStart_eq_nil_iff hp]
  simp [Text.trimEnd, Text.stripEnd, Text.trimStart, Text.stripStart]

end Strip

/-! ## Characters -/

theorem isBlank_of_isMark {c : Char} (h : isMark c = true) : Text.isBlank c = false := by
  simp only [isMark, Bool.or_eq_true, beq_iff_eq] at h
  rcases h with (rfl | rfl) | rfl <;> decide

theorem isBlank_of_isEnd {c : Char} (h : isEnd c = true) : Text.isBlank c = false := by
  simp only [isEnd, Bool.or_eq_true, beq_iff_eq] at h
  rcases h with rfl | rfl <;> decide

/-- The numbers of the blanks. -/
def blankCodes : List Nat :=
  List.range' 0x09 5 ++ [0x20, 0x85, 0xA0, 0x1680] ++ List.range' 0x2000 11 ++
    [0x2028, 0x2029, 0x202F, 0x205F, 0x3000]

theorem mem_blankCodes {c : Char} (h : Text.isBlank c = true) : c.toNat ∈ blankCodes := by
  simp only [Text.isBlank, Bool.or_eq_true, Bool.and_eq_true, decide_eq_true_eq, beq_iff_eq] at h
  simp only [blankCodes, List.mem_append, List.mem_range'_1, List.mem_cons, List.not_mem_nil]
  omega

/-- No blank is part of a word. -/
theorem isWordChar_of_isBlank {c : Char} (h : Text.isBlank c = true) :
    Text.isWordChar c = false := by
  have hcodes : ∀ n ∈ blankCodes, Text.isWordChar (Char.ofNat n) = false := by decide +kernel
  rw [← Char.ofNat_toNat c]
  exact hcodes _ (mem_blankCodes h)

theorem isWordChar_of_isMark {c : Char} (h : isMark c = true) : Text.isWordChar c = false := by
  simp only [isMark, Bool.or_eq_true, beq_iff_eq] at h
  rcases h with (rfl | rfl) | rfl <;> decide +kernel

theorem isWordChar_of_isEnd {c : Char} (h : isEnd c = true) : Text.isWordChar c = false := by
  simp only [isEnd, Bool.or_eq_true, beq_iff_eq] at h
  rcases h with rfl | rfl <;> decide +kernel

/-- A class without word characters has none of a word. -/
theorem forall_mem_word {p : Char → Bool} (hp : ∀ {c}, p c = true → Text.isWordChar c = false)
    {word : List Char} (hword : ∀ c ∈ word, Text.isWordChar c = true) : ∀ c ∈ word, p c = false := by
  intro c hc
  rw [Bool.eq_false_iff]
  intro hpc
  have hnot := hp hpc
  rw [hword c hc] at hnot
  cases hnot

/-! ## Items -/

section Word

variable {word : List Char} (hne : word ≠ []) (hword : ∀ c ∈ word, Text.isWordChar c = true)

include hne hword

/-- Around a word, both ends of an item are stripped each for itself. -/
theorem itemName?_append_word (front back : List Char) :
    itemName? (front ++ (word ++ back)) =
      name? (Text.trimStart (Text.stripStart isMark (Text.trimStart front)) ++
        (word ++ Text.trimEnd (Text.stripEnd isEnd (Text.trimEnd back)))) := by
  have hblank := forall_mem_word isWordChar_of_isBlank hword
  have hmark := forall_mem_word isWordChar_of_isMark hword
  have hend := forall_mem_word isWordChar_of_isEnd hword
  unfold itemName? trimmedName? Text.trim Text.trimStart Text.stripStart Text.trimEnd
  rw [dropWhile_append_word hne hblank, stripEnd_append_word hne hblank,
    dropWhile_append_word hne hmark, stripEnd_append_word hne hend,
    dropWhile_append_word hne hblank, stripEnd_append_word hne hblank]

end Word

/-- An item that shows a name is read as it. -/
theorem Shows.itemName? {item : List Char} {name : String} (h : Shows item name) :
    itemName? item = some name := by
  obtain ⟨front, back, rfl, hname, hfront, hback⟩ := h
  have hne : name.toList ≠ [] := by
    intro hnil
    rw [hnil] at hname
    cases hname
  have hword := List.all_eq_true.1 (Text.all_isWordChar_of_isName hname)
  rw [List.append_assoc, itemName?_append_word hne hword,
    (stripStart_eq_nil_iff (fun _ => isBlank_of_isMark) front).2 hfront,
    (stripEnd_eq_nil_iff (fun _ => isBlank_of_isEnd) back).2 hback, List.nil_append,
    List.append_nil, name?, if_pos hname, String.ofList_toList]

/-- An item is read as the name that it shows, and not at all if it shows none. -/
theorem itemName?_eq_some_iff {item : List Char} {name : String} :
    itemName? item = some name ↔ Shows item name := by
  refine ⟨?_, Shows.itemName?⟩
  intro h
  unfold Statement.itemName? trimmedName? name? at h
  obtain ⟨b, b', hitem, hb, hb'⟩ := exists_append_trim item
  obtain ⟨marks, hmarks, hmark⟩ := exists_append_stripStart isMark (Text.trim item)
  generalize Text.trim item = t at *
  obtain ⟨ends, hends, hend⟩ := exists_stripEnd_append isEnd (Text.stripStart isMark t)
  generalize Text.stripStart isMark t = t₁ at *
  obtain ⟨b₂, b₂', hword, hb₂, hb₂'⟩ := exists_append_trim (Text.stripEnd isEnd t₁)
  generalize Text.stripEnd isEnd t₁ = t₂ at *
  generalize Text.trim t₂ = word at *
  split at h
  · rename_i hname
    obtain rfl := Option.some.inj h
    rw [hitem, hmarks, hends, hword]
    refine ⟨b ++ marks ++ b₂, b₂' ++ ends ++ b', ?_, by rwa [String.toList_ofList],
      ⟨b, marks, b₂, rfl, hb, hmark, hb₂⟩, ⟨b₂', ends, b', rfl, hb₂', hend, hb'⟩⟩
    rw [String.toList_ofList]
    simp only [List.append_assoc]
  · cases h

instance (item : List Char) (name : String) : Decidable (Shows item name) :=
  decidable_of_iff _ itemName?_eq_some_iff

end Reparse.Statement
