import Mathlib.Data.List.Basic
import Reparse.Proofs.Statement.ImportText
import Reparse.Statement.Classify

/-!
The names that are read off an import. The keywords `as` and `import` are found only between two
spaces, so other blanks beside them, or none, hide them, and the statement is read as if they were
not there. The names that are read are those that the import binds exactly where no keyword that
matters is hidden.
-/

namespace Reparse.Statement

open Text (Solid behind? spaced)

/-! ## Names that are bound and names that are read -/

def Dotted.first : Dotted → Word
  | last n => n
  | more n _ _ _ => n

/-- There is a dot between names. -/
def Dotted.isPath : Dotted → Bool
  | last _ => false
  | more _ _ _ _ => true

/-- The name that is bound: the alias, or else the first name of what is imported. -/
def Imported.bound {α : Type} (first : α → Word) (i : Imported α) : Word :=
  (i.renamed.map Alias.name).getD (first i.source)

def Selection.list : Selection → List (Imported Word)
  | all _ => []
  | members _ list => list.toList
  | enclosed _ _ list _ _ => list.toList

/-- The names that the import binds, in their order. -/
def ImportStatement.names : ImportStatement → List String
  | modules _ list => list.toList.map fun m => String.ofList (m.bound Dotted.first).1
  | members _ selection => selection.list.map fun m => String.ofList (m.bound id).1

/-- The keyword stands between two spaces. -/
def Alias.Spaced (a : Alias) : Prop :=
  a.front.1.getLast? = some ' ' ∧ a.back.1.head? = some ' '

instance Alias.decidableSpaced (a : Alias) : Decidable a.Spaced :=
  inferInstanceAs (Decidable (_ ∧ _))

/-- The name that is read off a module. Where the alias is hidden, a single name has blanks in it; of
several names the first is read. -/
def moduleRead? (m : Imported Dotted) : Option String :=
  match m.renamed, m.source with
  | none, path => name? path.first.1
  | some a, .last _ => if a.Spaced then name? a.name.1 else none
  | some a, .more n _ _ _ => if a.Spaced then name? a.name.1 else name? n.1

/-- The name that is read off a member. -/
def memberRead? (m : Imported Word) : Option String :=
  match m.renamed with
  | none => name? m.source.1
  | some a => if a.Spaced then name? a.name.1 else none

/-- The names that are read off the import. -/
def ImportStatement.read : ImportStatement → List String
  | modules _ list => list.toList.filterMap moduleRead?
  | members origin selection =>
    if origin.back.1.getLast? = some ' ' ∧ selection.front.1.head? = some ' ' then
      selection.list.filterMap memberRead?
    else []

/-! ## Reading an item -/

theorem name?_of_mem_isBlank {cs : List Char} {c : Char} (hc : c ∈ cs)
    (hblank : Text.isBlank c = true) : name? cs = none := by
  refine if_neg fun h => ?_
  have hword := List.all_eq_true.1 (Text.all_isWordChar_of_isName h) c hc
  rw [isWordChar_of_isBlank hblank] at hword
  cases hword

theorem trimmedName?_of_solid {cs : List Char} (h : Solid isBreak cs) :
    trimmedName? cs = name? cs := by
  have htrim := (solid_isBlank h).trim_back (fun _ => List.not_mem_nil.elim)
  rw [List.append_nil] at htrim
  rw [trimmedName?, htrim]

/-- A text that ends with an alias is no name: there are blanks in front of the keyword. -/
theorem Alias.name?_append_text (a : Alias) (cs : List Char) : name? (cs ++ a.text) = none := by
  obtain ⟨c, rest, hfront⟩ := List.exists_cons_of_ne_nil a.front.2.1
  exact name?_of_mem_isBlank (c := c) (by simp [Alias.text, hfront])
    (a.front.2.2 c (by simp [hfront]))

/-- Of the text behind the keyword and its space the name is left. -/
theorem Alias.trimmedName?_back (a : Alias) :
    trimmedName? (a.back.1.tail ++ a.name.1) = name? a.name.1 := by
  rw [trimmedName?, (solid_isBlank a.name.2.1.solid).trim_front
    fun c hc => a.back.2.2 c (List.mem_of_mem_tail hc)]

/-- The search finds the keyword of an alias if a space stands on either side. -/
theorem Imported.alias?_text {α : Type} {text : α → List Char}
    (h : ∀ a, Passes asKeyword (text a)) (i : Imported α) :
    alias? (i.text text) =
      i.renamed.bind fun a => if a.Spaced then some (a.back.1.tail ++ a.name.1) else none := by
  have hunbroken := isUnbroken_innerKeyword asKeyword_mem
  obtain ⟨source, renamed⟩ := i
  cases renamed with
  | none => exact h source [] [] Gap.empty.2 ends_nil
  | some a =>
    have hends : Ends a.text := ends_append a.front.2.2 (.inl a.front.2.1)
    have hback : Ends (a.back.1 ++ a.name.1) := ends_append a.back.2.2 (.inl a.back.2.1)
    have hname : behind? (spaced asKeyword) (a.back.1 ++ a.name.1) = none := by
      have hpass := passes_name asKeyword_mem a.name a.back.1 [] a.back.2.2 ends_nil
      rwa [List.append_nil] at hpass
    obtain ⟨c, back, hcons⟩ := List.exists_cons_of_ne_nil a.back.2.1
    have hhead : (a.back.1 ++ a.name.1).head? = a.back.1.head? := by simp [hcons]
    have htail : (a.back.1 ++ a.name.1).tail = a.back.1.tail ++ a.name.1 := by simp [hcons]
    calc alias? (text source ++ a.text)
      _ = behind? (spaced asKeyword) a.text := h source [] a.text Gap.empty.2 hends
      _ = _ := by
        rw [Alias.text, Text.behind?_word hunbroken.1 hunbroken.isBlank a.front.2.2
          hunbroken.isBlank (hback.not_mem hunbroken), hname, hhead, htail]
        exact if_congr (by simp [Alias.Spaced]) rfl rfl

theorem importedName?_memberText (m : Imported Word) :
    importedName? (memberText m) = memberRead? m := by
  have hsolid := m.solid fun n => n.2.1.solid
  rw [importedName?, m.alias?_text (passes_name asKeyword_mem)]
  obtain ⟨n, _ | a⟩ := m
  · simp [memberRead?, memberText, Imported.text, trimmedName?_of_solid n.2.1.solid]
  · by_cases hspaced : a.Spaced
    · simp [memberRead?, hspaced, a.trimmedName?_back]
    · have hname : name? (memberText ⟨n, some a⟩) = none := a.name?_append_text n.1
      simp [memberRead?, hspaced, trimmedName?_of_solid hsolid, hname]

theorem takeWhile_append_of_not_mem {cs : List Char} (h : '.' ∉ cs) (rest : List Char) :
    (cs ++ rest).takeWhile (· != '.') = cs ++ rest.takeWhile (· != '.') := by
  refine List.takeWhile_append_of_pos fun c hc => bne_iff_ne.2 ?_
  rintro rfl
  exact h hc

/-- A module with a single name has no dot, nor has its alias. -/
theorem takeWhile_moduleText_last (n : Word) (renamed : Option Alias) :
    (moduleText ⟨.last n, renamed⟩).takeWhile (· != '.') = moduleText ⟨.last n, renamed⟩ := by
  have hdot : '.' ∉ moduleText ⟨.last n, renamed⟩ := by
    have hword : '.' ∉ n.1 := n.2.1.not_mem (by decide)
    cases renamed with
    | none => simpa [Imported.text, Dotted.text] using hword
    | some a => simpa [Imported.text, Dotted.text, hword] using a.not_mem (by decide)
  have happend := takeWhile_append_of_not_mem hdot []
  rwa [List.takeWhile_nil, List.append_nil] at happend

/-- In front of the first dot of a module there is its first name. -/
theorem trimmedName?_moduleText_more (n : Word) (front back : Gap) (rest : Dotted)
    (renamed : Option Alias) :
    trimmedName? ((moduleText ⟨.more n front back rest, renamed⟩).takeWhile (· != '.')) =
      name? n.1 := by
  have hdot : '.' ∉ n.1 ++ front.1 := by
    have hword : '.' ∉ n.1 := n.2.1.not_mem (by decide)
    simp [hword, not_mem_gap front, isSign]
  have hcut : (moduleText ⟨.more n front back rest, renamed⟩).takeWhile (· != '.') =
      n.1 ++ front.1 := by
    simpa [Imported.text, Dotted.text] using takeWhile_append_of_not_mem hdot
      ('.' :: (back.1 ++ (rest.text ++ (renamed.map Alias.text).getD [])))
  rw [hcut, trimmedName?, (solid_isBlank n.2.1.solid).trim_back front.2]

theorem importedModule?_moduleText (m : Imported Dotted) :
    importedModule? (moduleText m) = moduleRead? m := by
  have hsolid := m.solid Dotted.solid
  rw [importedModule?, m.alias?_text (Dotted.passes asKeyword_mem)]
  obtain ⟨n | ⟨n, front, back, rest⟩, _ | a⟩ := m
  · have hname : trimmedName? (moduleText ⟨.last n, none⟩) = name? n.1 := by
      simpa [Imported.text, Dotted.text] using trimmedName?_of_solid n.2.1.solid
    simp [moduleRead?, takeWhile_moduleText_last, hname, Dotted.first]
  · have hname : name? (moduleText ⟨.last n, some a⟩) = none := a.name?_append_text n.1
    by_cases hspaced : a.Spaced
    · simp [moduleRead?, hspaced, a.trimmedName?_back]
    · simp [moduleRead?, hspaced, takeWhile_moduleText_last, trimmedName?_of_solid hsolid, hname]
  · simp [moduleRead?, trimmedName?_moduleText_more, Dotted.first]
  · by_cases hspaced : a.Spaced
    · simp [moduleRead?, hspaced, a.trimmedName?_back]
    · simp [moduleRead?, hspaced, trimmedName?_moduleText_more]

/-! ## Reading a statement -/

theorem importBindings_text (l : Listed (Imported Dotted)) :
    importBindings (l.text moduleText) = l.toList.filterMap moduleRead? := by
  have hsplit := l.filterMap_splitOn (f := importedModule?) rfl
    (Imported.not_mem (by decide) Dotted.comma_not_mem) (Imported.solid Dotted.solid)
    importedModule?_moduleText .empty .empty none
  simpa [importBindings, closing, Gap.empty] using hsplit

/-- The names that are read off what stands behind the keyword `import`. -/
def listedNames (items : List Char) : List String :=
  ((Text.stripEnd (· == ')') (Text.stripStart (· == '(') (Text.trim items))).splitOn ',').filterMap
    fun item => importedName? (Text.trim item)

theorem fromBindings_eq (rest : List Char) :
    fromBindings rest = ((behind? (spaced importKeyword) rest).map listedNames).getD [] := by
  have hspaced : " import ".toList = spaced importKeyword := rfl
  rw [fromBindings, hspaced, behind?]
  cases Text.splitOnce (spaced importKeyword) rest <;> rfl

/-- Parentheses are dropped around a text that has none. -/
theorem stripEnd_stripStart (opening ending : List Char) {cs : List Char}
    (hopening : ∀ c ∈ opening, c = '(') (hending : ∀ c ∈ ending, c = ')') (hopen : '(' ∉ cs)
    (hclose : ')' ∉ cs) :
    Text.stripEnd (· == ')') (Text.stripStart (· == '(') (opening ++ (cs ++ ending))) = cs := by
  have hhead : ∀ c ∈ (cs ++ ending).head?, (c == '(') = false := by
    intro c hc
    refine beq_eq_false_iff_ne.2 ?_
    rintro rfl
    rcases List.mem_append.1 (List.mem_of_mem_head? hc) with hmem | hmem
    · exact hopen hmem
    · exact absurd (hending _ hmem) (by decide)
  have hlast : ∀ c ∈ cs.getLast?, (c == ')') = false := by
    intro c hc
    refine beq_eq_false_iff_ne.2 ?_
    rintro rfl
    exact hclose (List.mem_of_getLast? hc)
  rw [Text.stripStart_append (by simpa using hopening) hhead,
    Text.stripEnd_append (by simpa using hending) hlast]

namespace Selection

/-- The items have no sign but the commas between them. -/
theorem not_mem_listText {c : Char} (hc : isSign c = true) (hne : c ≠ ',')
    (l : Listed (Imported Word)) : c ∉ l.text memberText :=
  l.not_mem hc hne (Imported.not_mem hc fun n => n.2.1.not_mem (isBreak_of_isSign hc))

theorem body_solid (s : Selection) : Solid Text.isBlank s.body := by
  have hsign : ∀ c, isSign c = true → Solid Text.isBlank [c] := by
    intro c hc
    exact .of_forall (List.cons_ne_nil _ _) (List.forall_mem_singleton.2 (isBlank_of_isSign hc))
  cases s with
  | all front => exact hsign '*' (by decide)
  | members front list => exact solid_isBlank (list.solid (Imported.solid fun n => n.2.1.solid))
  | enclosed front inner list back comma =>
    exact (hsign '(' (by decide)).append (hsign ')' (by decide)) _

theorem head?_text (s : Selection) : s.text.head? = some ' ' ↔ s.front.1.head? = some ' ' := by
  rw [text]
  cases s.front.1 with
  | nil =>
    refine ⟨fun h => ?_, nofun⟩
    have hblank := s.body_solid.head?_append [] ' ' (by simpa using h)
    revert hblank
    decide
  | cons c front => rfl

/-- The text ends the keyword in front of it. -/
theorem ends_text (s : Selection) : Ends s.text := by
  cases s with
  | all front => exact ends_append front.2 (.inr (ends_sign (by decide) _))
  | members front list => exact ends_append front.2.2 (.inl front.2.1)
  | enclosed front inner list back comma =>
    exact ends_append front.2 (.inr (ends_sign (by decide) _))

theorem ends_closing (back : Gap) (comma : Option Gap) (rest : List Char) :
    Ends (back.1 ++ (closing comma ++ ')' :: rest)) := by
  refine ends_append back.2 (.inr ?_)
  cases comma with
  | none => exact ends_sign (by decide) _
  | some gap => exact ends_sign (by decide) _

/-- The keyword is not found behind itself. -/
theorem behind?_text (s : Selection) : behind? (spaced importKeyword) s.text = none := by
  have hunbroken := isUnbroken_innerKeyword importKeyword_mem
  have hlist : ∀ l : Listed (Imported Word), Passes importKeyword (l.text memberText) :=
    Listed.passes (Imported.passes (passes_name importKeyword_mem))
  cases s with
  | all front => exact behind?_sign hunbroken front.2 (by decide) []
  | members front list =>
    have hpass := hlist list front.1 [] front.2.2 ends_nil
    rwa [List.append_nil] at hpass
  | enclosed front inner list back comma =>
    -- Behind the list there are only signs and blanks.
    have hclose : behind? (spaced importKeyword) (back.1 ++ (closing comma ++ [')'])) = none := by
      cases comma with
      | none => exact behind?_sign hunbroken back.2 (by decide) []
      | some gap =>
        refine (behind?_sign hunbroken back.2 (c := ',') (by decide) _).trans ?_
        exact behind?_sign hunbroken gap.2 (by decide) []
    calc behind? (spaced importKeyword) (Selection.enclosed front inner list back comma).text
      _ = behind? (spaced importKeyword)
            (inner.1 ++ (list.text memberText ++ (back.1 ++ (closing comma ++ [')'])))) := by
        rw [Selection.text, Selection.body, Selection.front,
          behind?_sign hunbroken front.2 (by decide)]
        simp
      _ = none := by
        rw [hlist list _ _ inner.2 (ends_closing back comma []), hclose]

/-- The names are read off the list, whether it stands in parentheses or not. -/
theorem listedNames_append_body (s : Selection) {gap : List Char}
    (hgap : ∀ c ∈ gap, Text.isBlank c = true) :
    listedNames (gap ++ s.body) = s.list.filterMap memberRead? := by
  have hread := fun (l : Listed (Imported Word)) =>
    l.filterMap_splitOn (f := importedName?) rfl
      (Imported.not_mem (by decide) fun n => n.2.1.not_mem (by decide))
      (Imported.solid fun n => n.2.1.solid) importedName?_memberText
  rw [listedNames, s.body_solid.trim_front hgap]
  cases s with
  | all front => rfl
  | members front list =>
    have hstrip : Text.stripEnd (· == ')') (Text.stripStart (· == '(') (list.text memberText)) =
        list.text memberText := by
      simpa using stripEnd_stripStart [] [] (List.forall_mem_nil _) (List.forall_mem_nil _)
        (not_mem_listText (by decide) (by decide) list)
        (not_mem_listText (by decide) (by decide) list)
    have hitems := hread list .empty .empty none
    rw [body, hstrip, Selection.list, ← hitems]
    simp [closing, Gap.empty]
  | enclosed front inner list back comma =>
    have hnot : ∀ c, isSign c = true → c ≠ ',' →
        c ∉ inner.1 ++ (list.text memberText ++ (back.1 ++ closing comma)) := by
      intro c hc hne
      cases comma with
      | none => simp [closing, not_mem_gap inner hc, not_mem_gap back hc, not_mem_listText hc hne]
      | some gap =>
        simp [closing, not_mem_gap inner hc, not_mem_gap back hc, not_mem_gap gap hc,
          not_mem_listText hc hne, hne]
    have hstrip := stripEnd_stripStart ['('] [')'] (by simp) (by simp)
      (hnot '(' (by decide) (by decide)) (hnot ')' (by decide) (by decide))
    rw [List.singleton_append] at hstrip
    rw [body, hstrip, hread list inner back comma, Selection.list]

end Selection

namespace Origin

theorem head?_body_append (o : Origin) (rest : List Char) :
    ∀ c ∈ (o.body ++ rest).head?, Text.isBlank c = false := by
  have hdot : ∀ (dots : List Gap) rest, ∀ c ∈ (dotsText dots ++ rest).head?,
      Text.isBlank c = false := by
    intro dots rest c hc
    obtain rfl := Option.some.inj hc
    decide
  cases o with
  | absolute front module back => exact (solid_isBlank module.solid).head?_append rest
  | relative front dots between module back =>
    rw [body, List.append_assoc]
    exact hdot dots _
  | package front dots back => exact hdot dots rest

/-- The text ends the keyword in front of it. -/
theorem ends_text_append (o : Origin) (rest : List Char) : Ends (o.text ++ rest) := by
  have hdot : ∀ (dots : List Gap) rest, Ends (dotsText dots ++ rest) :=
    fun dots rest => ends_sign (by decide) _
  rw [text, List.append_assoc, List.append_assoc]
  cases o with
  | absolute front module back => exact ends_append front.2.2 (.inl front.2.1)
  | relative front dots between module back =>
    refine ends_append front.2 (.inr ?_)
    rw [body, List.append_assoc]
    exact hdot dots _
  | package front dots back => exact ends_append front.2 (.inr (hdot dots _))

theorem behind?_dotsText {w : List Char} (hw : IsUnbroken w) (dots : List Gap) (rest : List Char) :
    behind? (spaced w) (dotsText dots ++ rest) = behind? (spaced w) rest := by
  have hmore : behind? (spaced w) ((dots.flatMap fun gap => gap.1 ++ ['.']) ++ rest) =
      behind? (spaced w) rest := by
    induction dots with
    | nil => rfl
    | cons gap dots ih =>
      rw [List.flatMap_cons, List.append_assoc, List.append_assoc, List.singleton_append,
        behind?_sign hw gap.2 (by decide), ih]
  have hfirst : behind? (spaced w) (dotsText dots ++ rest) =
      behind? (spaced w) ((dots.flatMap fun gap => gap.1 ++ ['.']) ++ rest) := by
    rw [← List.nil_append (dotsText dots ++ rest), dotsText, List.cons_append]
    exact behind?_sign hw Gap.empty.2 (by decide) _
  exact hfirst.trans hmore

/-- The search for the keyword passes over the module. -/
theorem behind?_body_append (o : Origin) (rest : List Char) :
    behind? (spaced importKeyword) (o.body ++ (o.back.1 ++ rest)) =
      behind? (spaced importKeyword) (o.back.1 ++ rest) := by
  have hends : ∀ back : Break, Ends (back.1 ++ rest) :=
    fun back => ends_append back.2.2 (.inl back.2.1)
  have hunbroken := isUnbroken_innerKeyword importKeyword_mem
  cases o with
  | absolute front module back =>
    exact module.passes importKeyword_mem [] _ Gap.empty.2 (hends back)
  | relative front dots between module back =>
    rw [body, List.append_assoc, behind?_dotsText hunbroken, List.append_assoc]
    exact module.passes importKeyword_mem between.1 _ between.2 (hends back)
  | package front dots back => exact behind?_dotsText hunbroken dots _

end Origin

/-- The names are read off an import of members where the keyword stands between two spaces. -/
theorem fromBindings_text (o : Origin) (s : Selection) :
    fromBindings (o.body ++ (o.back.1 ++ (importKeyword ++ s.text))) =
      (ImportStatement.members o s).read := by
  have hunbroken := isUnbroken_innerKeyword importKeyword_mem
  have hfound : (o.back.1.getLast? = some ' ' ∧ importKeyword = importKeyword ∧
      s.text.head? = some ' ') ↔ (o.back.1.getLast? = some ' ' ∧ s.front.1.head? = some ' ') := by
    rw [s.head?_text, eq_self, true_and]
  rw [fromBindings_eq, o.behind?_body_append, Text.behind?_word hunbroken.1 hunbroken.isBlank
    o.back.2 hunbroken.isBlank (s.ends_text.not_mem hunbroken), s.behind?_text,
    if_congr hfound rfl rfl, ImportStatement.read]
  split_ifs with hspaced
  · obtain ⟨front, hfront⟩ := List.head?_eq_some_iff.1 hspaced.2
    have htail : s.text.tail = s.front.1.tail ++ s.body := by simp [Selection.text, hfront]
    rw [htail]
    exact s.listedNames_append_body fun c hc => s.front.2 c (List.mem_of_mem_tail hc)
  · rfl

theorem splitWord_append_of_ends {word rest : List Char} (hword : word.all Text.isWordChar = true)
    (hrest : Ends rest) : Text.splitWord (word ++ rest) = (word, rest) := by
  have hfirst : ∀ c ∈ rest.head?, Text.isWordChar c = false :=
    fun c hc => isWordChar_of_isBreak (hrest c hc)
  have hall := List.all_eq_true.1 hword
  rw [Text.splitWord, List.takeWhile_append_of_pos hall]
  refine Prod.ext ?_ (Text.stripStart_append hall hfirst)
  cases rest with
  | nil => simp
  | cons c rest => simp [hfirst c rfl]

theorem classifyTrimmed_import {rest : List Char} (h : Ends rest) (version : LanguageVersion) :
    classifyTrimmed (importKeyword ++ rest) version =
      .sound .importing (importBindings (Text.trimStart rest)) := by
  rw [classifyTrimmed, splitWord_append_of_ends (by decide +kernel) h]
  rfl

theorem classifyTrimmed_from {rest : List Char} (h : Ends rest) (version : LanguageVersion) :
    classifyTrimmed (fromKeyword ++ rest) version =
      .sound .importing (fromBindings (Text.trimStart rest)) := by
  rw [classifyTrimmed, splitWord_append_of_ends (by decide +kernel) h]
  rfl

theorem ImportStatement.solid (s : ImportStatement) : Solid Text.isBlank s.text := by
  cases s with
  | modules front list =>
    have hlist : Solid Text.isBlank (list.text moduleText) :=
      solid_isBlank (list.solid (Imported.solid Dotted.solid))
    have hkeyword : Solid Text.isBlank importKeyword :=
      solid_isBlank (isUnbroken_innerKeyword importKeyword_mem).solid
    exact hkeyword.append hlist front.1
  | members o s =>
    have hkeyword : Solid Text.isBlank fromKeyword := solid_isBlank isUnbroken_fromKeyword.solid
    have hsplit : (ImportStatement.members o s).text =
        fromKeyword ++ ((o.text ++ (importKeyword ++ s.front.1)) ++ s.body) := by
      simp [ImportStatement.text, Selection.text]
    rw [hsplit]
    exact hkeyword.append s.body_solid _

/-- An import is sorted as one, and its names are read. -/
theorem classifyTrimmed_text (s : ImportStatement) (version : LanguageVersion) :
    classifyTrimmed s.text version = .sound .importing s.read := by
  cases s with
  | modules front list =>
    have hsolid : Solid isBreak (list.text moduleText) := list.solid (Imported.solid Dotted.solid)
    have hends : Ends (front.1 ++ list.text moduleText) := ends_append front.2.2 (.inl front.2.1)
    have hstart : Text.trimStart (front.1 ++ list.text moduleText) = list.text moduleText := by
      have h := (solid_isBlank hsolid).head?_append []
      rw [List.append_nil] at h
      exact Text.stripStart_append front.2.2 h
    rw [ImportStatement.text, classifyTrimmed_import hends, hstart, importBindings_text,
      ImportStatement.read]
  | members o s =>
    have hstart : Text.trimStart (o.text ++ (importKeyword ++ s.text)) =
        o.body ++ (o.back.1 ++ (importKeyword ++ s.text)) := by
      rw [Origin.text, List.append_assoc, List.append_assoc]
      exact Text.stripStart_append o.front.2 (o.head?_body_append _)
    rw [ImportStatement.text, classifyTrimmed_from (o.ends_text_append _), hstart,
      fromBindings_text]

/-! ## Names that are bound and read -/

/-- The name that the module binds is read: it is a name, and the keyword `as` is found, if there is
one, or else the alias is the first name of several. -/
def ModuleLegible (m : Imported Dotted) : Prop :=
  Text.isName (m.bound Dotted.first).1 = true ∧
    ∀ a ∈ m.renamed, a.Spaced ∨ m.source.isPath = true ∧ m.source.first = a.name

/-- The name that the member binds is read: it is a name, and the keyword `as` is found, if there is
one. -/
def MemberLegible (m : Imported Word) : Prop :=
  Text.isName (m.bound id).1 = true ∧ ∀ a ∈ m.renamed, a.Spaced

/-- The names that the import binds are read, each at its place. Where members are imported from a
module the keyword `import` has to be found too, unless there is nothing to read. -/
def ImportStatement.Legible : ImportStatement → Prop
  | modules _ list => ∀ m ∈ list.toList, ModuleLegible m
  | members o s =>
    s.list = [] ∨
      (o.back.1.getLast? = some ' ' ∧ s.front.1.head? = some ' ') ∧ ∀ m ∈ s.list, MemberLegible m

theorem name?_eq_some_iff {cs cs' : List Char} :
    name? cs = some (String.ofList cs') ↔ Text.isName cs' = true ∧ cs = cs' := by
  rw [name?, Option.ite_none_right_eq_some]
  constructor
  · rintro ⟨hname, hsome⟩
    obtain rfl := String.ofList_injective (Option.some.inj hsome)
    exact ⟨hname, rfl⟩
  · rintro ⟨hname, rfl⟩
    exact ⟨hname, rfl⟩

theorem moduleRead?_eq_some_iff (m : Imported Dotted) :
    moduleRead? m = some (String.ofList (m.bound Dotted.first).1) ↔ ModuleLegible m := by
  obtain ⟨n | ⟨n, front, back, rest⟩, _ | a⟩ := m
  · simp [moduleRead?, ModuleLegible, Imported.bound, name?_eq_some_iff]
  · by_cases hspaced : a.Spaced
    · simp [moduleRead?, ModuleLegible, Imported.bound, name?_eq_some_iff, hspaced]
    · simp [moduleRead?, ModuleLegible, Imported.bound, hspaced, Dotted.isPath]
  · simp [moduleRead?, ModuleLegible, Imported.bound, name?_eq_some_iff]
  · by_cases hspaced : a.Spaced
    · simp [moduleRead?, ModuleLegible, Imported.bound, name?_eq_some_iff, hspaced]
    · simp [moduleRead?, ModuleLegible, Imported.bound, name?_eq_some_iff, hspaced, Dotted.isPath,
        Dotted.first, Subtype.ext_iff]

theorem memberRead?_eq_some_iff (m : Imported Word) :
    memberRead? m = some (String.ofList (m.bound id).1) ↔ MemberLegible m := by
  obtain ⟨n, _ | a⟩ := m
  · simp [memberRead?, MemberLegible, Imported.bound, name?_eq_some_iff]
  · by_cases hspaced : a.Spaced
    · simp [memberRead?, MemberLegible, Imported.bound, name?_eq_some_iff, hspaced]
    · simp [memberRead?, MemberLegible, Imported.bound, hspaced]

theorem ImportStatement.read_eq_names_iff (s : ImportStatement) : s.read = s.names ↔ s.Legible := by
  cases s with
  | modules front list =>
    rw [read, names, List.filterMap_eq_map_iff_forall_eq_some]
    exact forall₂_congr fun m _ => moduleRead?_eq_some_iff m
  | members o s =>
    have hread : s.list.filterMap memberRead? =
        (s.list.map fun m => String.ofList (m.bound id).1) ↔ ∀ m ∈ s.list, MemberLegible m := by
      rw [List.filterMap_eq_map_iff_forall_eq_some]
      exact forall₂_congr fun m _ => memberRead?_eq_some_iff m
    rw [read, names, Legible]
    split_ifs with hspaced
    · rw [hread, and_iff_right hspaced]
      refine ⟨.inr, fun h => h.elim (fun hnil => ?_) id⟩
      rw [hnil]
      exact List.forall_mem_nil _
    · rw [eq_comm, List.map_eq_nil_iff]
      exact ⟨.inl, fun h => h.resolve_right fun hlegible => hspaced hlegible.1⟩

/-- An import is sorted as one, whatever blanks are in it. The names that are read are those that it
binds exactly where the keywords that matter stand between spaces and each name is one. -/
theorem classify_importStatement (s : ImportStatement) (front back : Gap)
    (version : LanguageVersion) :
    let sorted := classify (front.1 ++ (s.text ++ back.1)) version
    sorted.kind = .importing ∧ sorted.fault = none ∧ sorted.bindings = s.read ∧
      (sorted.bindings = s.names ↔ s.Legible) := by
  have hsorted : classify (front.1 ++ (s.text ++ back.1)) version = .sound .importing s.read := by
    rw [classify, s.solid.trim front.2 back.2, classifyTrimmed_text]
  rw [hsorted]
  exact ⟨rfl, rfl, rfl, s.read_eq_names_iff⟩

example : classify "from m import (a as b, c)".toList ⟨3, 12⟩ = .sound .importing ["b", "c"] := by
  decide +kernel

/-- The import `from m import(a)`. -/
def unspacedImport : ImportStatement :=
  .members (.absolute .space (.last ⟨['m'], by decide⟩) .space)
    (.enclosed .empty .empty (.last ⟨⟨['a'], by decide⟩, none⟩) .empty none)

/-- Without a blank in front of the parenthesis the keyword is hidden, and nothing is read. -/
theorem not_forall_classify_names :
    ¬∀ (s : ImportStatement) (version : LanguageVersion),
      classify s.text version = .sound .importing s.names := by
  intro h
  have hnames : classify unspacedImport.text ⟨3, 12⟩ = .sound .importing ["a"] :=
    h unspacedImport ⟨3, 12⟩
  have hread : classify unspacedImport.text ⟨3, 12⟩ = .sound .importing [] := by decide +kernel
  rw [hread] at hnames
  exact absurd hnames (by decide)

end Reparse.Statement
