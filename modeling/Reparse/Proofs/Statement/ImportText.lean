import Reparse.Proofs.Statement.Targets
import Reparse.Proofs.Text.Cutting

/-!
Imports as they are written. Blanks may stand between any two tokens, and have to where two words
meet. No blank or sign is part of a name, so the items of an import are cut at its commas, and the
search for a keyword passes over whatever else is written.
-/

namespace Reparse.Statement

open Text (Solid behind? spaced)

/-! ## Imports as they are written -/

/-- The signs of an import. No sign is part of a name. -/
def isSign (c : Char) : Bool :=
  c == '.' || c == ',' || c == '(' || c == ')' || c == '*'

/-- The characters that end a name in an import. -/
def isBreak (c : Char) : Bool :=
  Text.isBlank c || isSign c

/-- A word of an import: it has neither blanks nor signs. -/
def IsUnbroken (cs : List Char) : Prop :=
  cs ≠ [] ∧ cs.any isBreak = false

instance (cs : List Char) : Decidable (IsUnbroken cs) :=
  inferInstanceAs (Decidable (_ ∧ _))

def fromKeyword : List Char :=
  "from".toList

def asKeyword : List Char :=
  "as".toList

def importKeyword : List Char :=
  "import".toList

/-- The keywords that may stand behind a name. -/
def innerKeywords : List (List Char) :=
  [asKeyword, importKeyword]

/-- A name in an import, as it is written. A language may have more characters for names than those
that make up a word here, so it is left open whether the name is one in the sense of `Text.isName`. -/
abbrev Word :=
  { cs : List Char // IsUnbroken cs ∧ cs ∉ innerKeywords }

theorem isBlank_of_mem_nil : ∀ c ∈ ([] : List Char), Text.isBlank c = true :=
  List.forall_mem_nil _

/-- No blanks. -/
def Gap.empty : Gap :=
  ⟨[], isBlank_of_mem_nil⟩

/-- Blanks where two words meet. -/
abbrev Break :=
  { cs : List Char // cs ≠ [] ∧ ∀ c ∈ cs, Text.isBlank c = true }

/-- A single space. -/
def Break.space : Break :=
  ⟨[' '], List.cons_ne_nil _ _, List.forall_mem_singleton.2 (by decide)⟩

/-- The blanks, as any that may stand between two tokens. -/
def Break.gap (b : Break) : Gap :=
  ⟨b.1, b.2.2⟩

/-- The keyword `as` with a name, and the blanks on both sides of the keyword. -/
structure Alias where
  front : Break
  back : Break
  name : Word

/-- A name, or names with dots between them and blanks around each dot. -/
inductive Dotted where
  | last (n : Word)
  | more (n : Word) (front back : Gap) (rest : Dotted)

/-- What is imported under a name: a module (`α` is `Dotted`) or a member of one (`α` is `Word`). -/
structure Imported (α : Type) where
  source : α
  renamed : Option Alias

/-- Items with commas between them, and blanks around each comma. -/
inductive Listed (α : Type) where
  | last (a : α)
  | more (a : α) (front back : Gap) (rest : Listed α)

/-- Where members are imported from, with the blanks in front and behind. The further dots of a
relative import are given by the blanks in front of each. Only a name has to be kept apart from the
keywords beside it. -/
inductive Origin where
  | absolute (front : Break) (module : Dotted) (back : Break)
  | relative (front : Gap) (dots : List Gap) (between : Gap) (module : Dotted) (back : Break)
  | package (front : Gap) (dots : List Gap) (back : Gap)

/-- Which members are imported, with the blanks in front: all, or those of a list, which may stand in
parentheses and then may have a comma at its end. -/
inductive Selection where
  | all (front : Gap)
  | members (front : Break) (list : Listed (Imported Word))
  | enclosed (front inner : Gap) (list : Listed (Imported Word)) (back : Gap) (comma : Option Gap)

/-- An import of modules, or of members of a module. -/
inductive ImportStatement where
  | modules (front : Break) (list : Listed (Imported Dotted))
  | members (origin : Origin) (selection : Selection)

def Alias.text (a : Alias) : List Char :=
  a.front.1 ++ (asKeyword ++ (a.back.1 ++ a.name.1))

def Dotted.text : Dotted → List Char
  | last n => n.1
  | more n front back rest => n.1 ++ (front.1 ++ '.' :: (back.1 ++ rest.text))

/-- What is imported, as it is written. -/
def Imported.text {α : Type} (text : α → List Char) (i : Imported α) : List Char :=
  text i.source ++ (i.renamed.map Alias.text).getD []

def Listed.text {α : Type} (text : α → List Char) : Listed α → List Char
  | last a => text a
  | more a front back rest => text a ++ (front.1 ++ ',' :: (back.1 ++ rest.text text))

def Listed.toList {α : Type} : Listed α → List α
  | last a => [a]
  | more a _ _ rest => a :: rest.toList

def dotsText (dots : List Gap) : List Char :=
  '.' :: dots.flatMap fun gap => gap.1 ++ ['.']

/-- The blanks behind `from`. -/
def Origin.front : Origin → Gap
  | absolute front _ _ => front.gap
  | relative front _ _ _ _ => front
  | package front _ _ => front

/-- What stands between the blanks. -/
def Origin.body : Origin → List Char
  | absolute _ module _ => module.text
  | relative _ dots between module _ => dotsText dots ++ (between.1 ++ module.text)
  | package _ dots _ => dotsText dots

/-- The blanks in front of the keyword `import`. -/
def Origin.back : Origin → Gap
  | absolute _ _ back => back.gap
  | relative _ _ _ _ back => back.gap
  | package _ _ back => back

def Origin.text (o : Origin) : List Char :=
  o.front.1 ++ (o.body ++ o.back.1)

/-- A module as it is imported. -/
abbrev moduleText : Imported Dotted → List Char :=
  Imported.text Dotted.text

/-- A member as it is imported. -/
abbrev memberText : Imported Word → List Char :=
  Imported.text Subtype.val

/-- The comma at the end of a list, if there is one, with the blanks behind it. -/
def closing (comma : Option Gap) : List Char :=
  (comma.map fun gap => ',' :: gap.1).getD []

/-- The blanks behind the keyword `import`. -/
def Selection.front : Selection → Gap
  | all front => front
  | members front _ => front.gap
  | enclosed front _ _ _ _ => front

/-- What stands behind the blanks. -/
def Selection.body : Selection → List Char
  | all _ => ['*']
  | members _ list => list.text memberText
  | enclosed _ inner list back comma =>
    '(' :: (inner.1 ++ (list.text memberText ++ (back.1 ++ closing comma)) ++ [')'])

def Selection.text (s : Selection) : List Char :=
  s.front.1 ++ s.body

/-- The import as it is written. -/
def ImportStatement.text : ImportStatement → List Char
  | modules front list => importKeyword ++ (front.1 ++ list.text moduleText)
  | members origin selection =>
    fromKeyword ++ (origin.text ++ (importKeyword ++ selection.text))

/-! ## Words and blanks -/

theorem isBlank_of_not_isBreak {c : Char} (h : isBreak c = false) : Text.isBlank c = false :=
  (Bool.or_eq_false_iff.1 h).1

theorem isBreak_of_isBlank {c : Char} (h : Text.isBlank c = true) : isBreak c = true := by
  rw [isBreak, h, Bool.true_or]

theorem isBreak_of_isSign {c : Char} (h : isSign c = true) : isBreak c = true := by
  rw [isBreak, h, Bool.or_true]

theorem isBlank_of_isSign {c : Char} (h : isSign c = true) : Text.isBlank c = false := by
  simp only [isSign, Bool.or_eq_true, beq_iff_eq] at h
  rcases h with (((rfl | rfl) | rfl) | rfl) | rfl <;> decide

theorem isWordChar_of_isSign {c : Char} (h : isSign c = true) : Text.isWordChar c = false := by
  simp only [isSign, Bool.or_eq_true, beq_iff_eq] at h
  rcases h with (((rfl | rfl) | rfl) | rfl) | rfl <;> decide +kernel

/-- No break is part of a word. -/
theorem isWordChar_of_isBreak {c : Char} (h : isBreak c = true) : Text.isWordChar c = false :=
  (Bool.or_eq_true_iff.1 h).elim isWordChar_of_isBlank isWordChar_of_isSign

theorem asKeyword_mem : asKeyword ∈ innerKeywords := by
  decide

theorem importKeyword_mem : importKeyword ∈ innerKeywords := by
  decide

theorem isUnbroken_fromKeyword : IsUnbroken fromKeyword := by
  decide

theorem isUnbroken_innerKeyword {w : List Char} (h : w ∈ innerKeywords) : IsUnbroken w := by
  revert w
  decide

namespace IsUnbroken

variable {cs : List Char} (h : IsUnbroken cs)

include h

theorem isBreak_eq_false : ∀ c ∈ cs, isBreak c = false :=
  fun c hc => Bool.eq_false_iff.2 (List.any_eq_false.1 h.2 c hc)

theorem isBlank : ∀ c ∈ cs, Text.isBlank c = false :=
  fun c hc => isBlank_of_not_isBreak (h.isBreak_eq_false c hc)

theorem solid : Solid isBreak cs :=
  .of_forall h.1 h.isBreak_eq_false

theorem not_mem {c : Char} (hc : isBreak c = true) : c ∉ cs := by
  intro hmem
  rw [h.isBreak_eq_false c hmem] at hc
  cases hc

end IsUnbroken

theorem solid_isBlank {cs : List Char} (h : Solid isBreak cs) : Solid Text.isBlank cs :=
  h.mono fun _ => isBreak_of_isBlank

/-! ## Searching keywords -/

/-- The text ends a word in front of it. -/
def Ends (rest : List Char) : Prop :=
  ∀ c ∈ rest.head?, isBreak c = true

/-- The search for the keyword passes over the text, whatever blanks stand in front of it. -/
def Passes (w cs : List Char) : Prop :=
  ∀ gap rest, (∀ c ∈ gap, Text.isBlank c = true) → Ends rest →
    behind? (spaced w) (gap ++ (cs ++ rest)) = behind? (spaced w) rest

theorem ends_nil : Ends [] :=
  nofun

theorem ends_sign {c : Char} (h : isSign c = true) (rest : List Char) : Ends (c :: rest) := by
  intro d hd
  obtain rfl := Option.some.inj hd
  exact isBreak_of_isSign h

/-- Blanks end a word; where there are none, what follows has to. -/
theorem ends_append {gap : List Char} (hgap : ∀ c ∈ gap, Text.isBlank c = true) {rest : List Char}
    (h : gap ≠ [] ∨ Ends rest) : Ends (gap ++ rest) := by
  cases gap with
  | nil => exact h.resolve_left fun hne => hne rfl
  | cons c gap =>
    intro d hd
    obtain rfl := Option.some.inj hd
    exact isBreak_of_isBlank (hgap c List.mem_cons_self)

section Search

variable {w : List Char} (hw : IsUnbroken w)

include hw

theorem Ends.not_mem {rest : List Char} (h : Ends rest) : ∀ c ∈ rest.head?, c ∉ w :=
  fun c hc => hw.not_mem (h c hc)

theorem behind?_sign {gap : List Char} (hgap : ∀ c ∈ gap, Text.isBlank c = true) {c : Char}
    (hc : isSign c = true) (rest : List Char) :
    behind? (spaced w) (gap ++ c :: rest) = behind? (spaced w) rest :=
  Text.behind?_mark hw.1 hw.isBlank hgap (isBlank_of_isSign hc)
    (hw.not_mem (isBreak_of_isSign hc)) rest

theorem passes_word {cs : List Char} (h : IsUnbroken cs) (hne : cs ≠ w) : Passes w cs := by
  intro gap rest hgap hrest
  rw [Text.behind?_word hw.1 hw.isBlank hgap h.isBlank (Ends.not_mem hw hrest),
    if_neg fun hfound => hne hfound.2.1]

variable {cs cs' : List Char}

omit hw in
/-- The search passes over two texts with blanks between them. -/
theorem Passes.append (h : Passes w cs) (h' : Passes w cs') (between : Break) :
    Passes w (cs ++ (between.1 ++ cs')) := by
  intro gap rest hgap hrest
  have hends : Ends (between.1 ++ (cs' ++ rest)) := ends_append between.2.2 (.inl between.2.1)
  rw [List.append_assoc, List.append_assoc, h gap _ hgap hends, h' _ _ between.2.2 hrest]

/-- The search passes over two texts with a sign between them. -/
theorem Passes.sign (h : Passes w cs) (h' : Passes w cs') (front back : Gap) {c : Char}
    (hc : isSign c = true) : Passes w (cs ++ (front.1 ++ c :: (back.1 ++ cs'))) := by
  intro gap rest hgap hrest
  have hends : Ends (front.1 ++ c :: (back.1 ++ (cs' ++ rest))) :=
    ends_append front.2 (.inr (ends_sign hc _))
  simp only [List.append_assoc, List.cons_append]
  rw [h gap _ hgap hends, behind?_sign hw front.2 hc, h' _ _ back.2 hrest]

end Search

/-- No name is a keyword. -/
theorem passes_name {w : List Char} (hw : w ∈ innerKeywords) (n : Word) : Passes w n.1 :=
  passes_word (isUnbroken_innerKeyword hw) n.2.1 fun h => n.2.2 (h ▸ hw)

/-! ## What is written between commas -/

theorem not_mem_gap (gap : Gap) {c : Char} (hc : isSign c = true) : c ∉ gap.1 := by
  intro h
  have hblank := isBlank_of_isSign hc
  rw [gap.2 c h] at hblank
  cases hblank

theorem Dotted.solid (d : Dotted) : Solid isBreak d.text := by
  induction d with
  | last n => exact n.2.1.solid
  | more n front back rest ih =>
    rw [Dotted.text, ← List.cons_append, ← List.append_assoc front.1]
    exact n.2.1.solid.append ih _

theorem Dotted.passes {w : List Char} (hw : w ∈ innerKeywords) (d : Dotted) : Passes w d.text := by
  induction d with
  | last n => exact passes_name hw n
  | more n front back rest ih =>
    exact (passes_name hw n).sign (isUnbroken_innerKeyword hw) ih front back (by decide)

theorem Dotted.comma_not_mem (d : Dotted) : ',' ∉ d.text := by
  have hword : ∀ n : Word, ',' ∉ n.1 := fun n => n.2.1.not_mem (by decide)
  induction d with
  | last n => exact hword n
  | more n front back rest ih =>
    simp [Dotted.text, hword n, not_mem_gap front, not_mem_gap back, ih, isSign]

/-- No sign is part of an alias or of the keyword in front of it. -/
theorem Alias.not_mem (a : Alias) {c : Char} (hc : isSign c = true) : c ∉ a.text := by
  have hbreak := isBreak_of_isSign hc
  have hkeyword : c ∉ asKeyword := (isUnbroken_innerKeyword asKeyword_mem).not_mem hbreak
  have hfront : c ∉ a.front.1 := not_mem_gap a.front.gap hc
  have hback : c ∉ a.back.1 := not_mem_gap a.back.gap hc
  simp [Alias.text, hfront, hback, hkeyword, a.name.2.1.not_mem hbreak]

section Imported

variable {α : Type} {text : α → List Char}

theorem Imported.solid (h : ∀ a, Solid isBreak (text a)) (i : Imported α) :
    Solid isBreak (i.text text) := by
  obtain ⟨source, renamed⟩ := i
  cases renamed with
  | none => simpa [Imported.text] using h source
  | some a =>
    have hword := a.name.2.1.solid
    have hsplit : Imported.text text ⟨source, some a⟩ =
        text source ++ ((a.front.1 ++ (asKeyword ++ a.back.1)) ++ a.name.1) := by
      simp [Imported.text, Alias.text]
    rw [hsplit]
    exact (h source).append hword _

theorem Imported.passes (h : ∀ a, Passes importKeyword (text a)) (i : Imported α) :
    Passes importKeyword (i.text text) := by
  obtain ⟨source, renamed⟩ := i
  cases renamed with
  | none => simpa [Imported.text] using h source
  | some a =>
    have hkeyword : Passes importKeyword asKeyword :=
      passes_word (isUnbroken_innerKeyword importKeyword_mem) (isUnbroken_innerKeyword asKeyword_mem)
        (by decide)
    have hname : Passes importKeyword a.name.1 := passes_name importKeyword_mem a.name
    exact (h source).append (hkeyword.append hname a.back) a.front

theorem Imported.not_mem {c : Char} (hc : isSign c = true) (h : ∀ a, c ∉ text a)
    (i : Imported α) : c ∉ i.text text := by
  obtain ⟨source, renamed⟩ := i
  cases renamed with
  | none => simpa [Imported.text] using h source
  | some a => simpa [Imported.text, h source] using a.not_mem hc

end Imported

section Listed

variable {α : Type} {text : α → List Char}

theorem Listed.solid (h : ∀ a, Solid isBreak (text a)) (l : Listed α) :
    Solid isBreak (l.text text) := by
  induction l with
  | last a => exact h a
  | more a front back rest ih =>
    rw [Listed.text, ← List.cons_append, ← List.append_assoc front.1]
    exact (h a).append ih _

theorem Listed.not_mem {c : Char} (hc : isSign c = true) (hne : c ≠ ',') (h : ∀ a, c ∉ text a)
    (l : Listed α) : c ∉ l.text text := by
  induction l with
  | last a => exact h a
  | more a front back rest ih =>
    simp [Listed.text, h a, not_mem_gap front hc, not_mem_gap back hc, ih, hne]

theorem Listed.passes (h : ∀ a, Passes importKeyword (text a)) (l : Listed α) :
    Passes importKeyword (l.text text) := by
  induction l with
  | last a => exact h a
  | more a front back rest ih =>
    exact (h a).sign (isUnbroken_innerKeyword importKeyword_mem) ih front back (by decide)

/-- Each item of a list is read alone. Behind a comma at the end of the list there is nothing to
read. -/
theorem Listed.filterMap_splitOn {f : List Char → Option String} {read : α → Option String}
    (hnil : f [] = none) (hcomma : ∀ a, ',' ∉ text a) (hsolid : ∀ a, Solid isBreak (text a))
    (hread : ∀ a, f (text a) = read a) (l : Listed α) (front back : Gap) (comma : Option Gap) :
    ((front.1 ++ (l.text text ++ (back.1 ++ closing comma))).splitOn ',').filterMap
      (fun item => f (Text.trim item)) = l.toList.filterMap read := by
  have hitem : ∀ (front back : Gap) a, ',' ∉ front.1 ++ (text a ++ back.1) := by
    intro front back a
    simp [hcomma a, not_mem_gap front, not_mem_gap back, isSign]
  have htrim : ∀ (front back : Gap) a, Text.trim (front.1 ++ (text a ++ back.1)) = text a :=
    fun front back a => (solid_isBlank (hsolid a)).trim front.2 back.2
  -- Behind each comma the blanks are others, so the list is taken with any blanks in front of it.
  induction l generalizing front with
  | last a =>
    cases comma with
    | none =>
      have hclosing : closing none = [] := rfl
      rw [Listed.text, hclosing, List.append_nil, List.splitOn_eq_singleton (hitem front back a),
        List.filterMap_cons, htrim, hread]
      rfl
    | some gap =>
      have hsplit : front.1 ++ (text a ++ (back.1 ++ closing (some gap))) =
          (front.1 ++ (text a ++ back.1)) ++ ',' :: gap.1 := by
        simp [closing]
      have hblanks : f (Text.trim gap.1) = none := by rw [Text.trim_blanks gap.2, hnil]
      rw [Listed.text, hsplit, List.splitOn_append_cons_self_of_not_mem (hitem front back a),
        List.splitOn_eq_singleton (not_mem_gap gap (by decide)), List.filterMap_cons, htrim, hread,
        List.filterMap_cons, hblanks]
      rfl
  | more a behind ahead rest ih =>
    have hsplit : front.1 ++ ((Listed.more a behind ahead rest).text text ++
        (back.1 ++ closing comma)) =
        (front.1 ++ (text a ++ behind.1)) ++ ',' :: (ahead.1 ++ (rest.text text ++
          (back.1 ++ closing comma))) := by
      simp [Listed.text]
    rw [hsplit, List.splitOn_append_cons_self_of_not_mem (hitem front behind a),
      List.filterMap_cons, ih, htrim, hread, Listed.toList, List.filterMap_cons]

end Listed

end Reparse.Statement
