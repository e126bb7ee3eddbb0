import Reparse.Text.Blank
import Reparse.Text.Split

/-!
Stripping and searching. A text with other characters than blanks at both ends is what is left when
any blanks around it are trimmed. A word is searched for between two spaces, and the search passes
over every other word and mark; other blanks than a space hide the word.
-/

namespace Reparse.Text

/-! ## Stripping -/

section Strip

variable {p q : Char → Bool} {cs cs' front back rest : List Char}

theorem stripStart_append (hfront : ∀ c ∈ front, p c = true)
    (hrest : ∀ c ∈ rest.head?, p c = false) : stripStart p (front ++ rest) = rest := by
  rw [stripStart, List.dropWhile_append_of_pos hfront]
  cases rest with
  | nil => rfl
  | cons c rest => rw [List.dropWhile_cons_of_neg (by simp [hrest c rfl])]

theorem stripEnd_append (hback : ∀ c ∈ back, p c = true)
    (hrest : ∀ c ∈ rest.getLast?, p c = false) : stripEnd p (rest ++ back) = rest := by
  have hreverse : stripStart p (back.reverse ++ rest.reverse) = rest.reverse :=
    stripStart_append (by simpa using hback) (by simpa using hrest)
  rw [stripEnd, List.reverse_append]
  rw [stripStart] at hreverse
  rw [hreverse, List.reverse_reverse]

/-- The text has characters outside the class at both ends. -/
structure Solid (p : Char → Bool) (cs : List Char) : Prop where
  first : ∃ c rest, cs = c :: rest ∧ p c = false
  last : ∃ front c, cs = front ++ [c] ∧ p c = false

namespace Solid

theorem of_forall (hne : cs ≠ []) (h : ∀ c ∈ cs, p c = false) : Solid p cs where
  first := by
    obtain ⟨c, rest, rfl⟩ := List.exists_cons_of_ne_nil hne
    exact ⟨c, rest, rfl, h c List.mem_cons_self⟩
  last :=
    ⟨cs.dropLast, cs.getLast hne, (List.dropLast_concat_getLast hne).symm,
      h _ (List.getLast_mem hne)⟩

theorem mono (h : Solid p cs) (hpq : ∀ c, q c = true → p c = true) : Solid q cs := by
  have hnot : ∀ c, p c = false → q c = false := by
    intro c hc
    rw [Bool.eq_false_iff] at hc ⊢
    exact fun hq => hc (hpq c hq)
  obtain ⟨c, rest, hcons, hc⟩ := h.first
  obtain ⟨front, d, hconcat, hd⟩ := h.last
  exact ⟨⟨c, rest, hcons, hnot c hc⟩, ⟨front, d, hconcat, hnot d hd⟩⟩

/-- Between two such texts anything may stand. -/
theorem append (h : Solid p cs) (h' : Solid p cs') (between : List Char) :
    Solid p (cs ++ (between ++ cs')) where
  first := by
    obtain ⟨c, rest, rfl, hc⟩ := h.first
    exact ⟨c, rest ++ (between ++ cs'), rfl, hc⟩
  last := by
    obtain ⟨front, c, rfl, hc⟩ := h'.last
    exact ⟨cs ++ (between ++ front), c, by simp, hc⟩

theorem head?_append (h : Solid p cs) (rest : List Char) :
    ∀ c ∈ (cs ++ rest).head?, p c = false := by
  obtain ⟨c, tail, rfl, hc⟩ := h.first
  intro d hd
  obtain rfl := Option.some.inj hd
  exact hc

theorem getLast?_append (h : Solid p cs) (front : List Char) :
    ∀ c ∈ (front ++ cs).getLast?, p c = false := by
  obtain ⟨init, c, rfl, hc⟩ := h.last
  intro d hd
  rw [← List.append_assoc, List.getLast?_concat] at hd
  obtain rfl := Option.some.inj hd
  exact hc

/-- Of a text with blanks around it the blanks are trimmed. -/
theorem trim (h : Solid isBlank cs) (hfront : ∀ c ∈ front, isBlank c = true)
    (hback : ∀ c ∈ back, isBlank c = true) : Text.trim (front ++ (cs ++ back)) = cs := by
  rw [Text.trim, trimStart, stripStart_append hfront (h.head?_append back)]
  exact stripEnd_append hback (h.getLast?_append [])

theorem trim_front (h : Solid isBlank cs) (hfront : ∀ c ∈ front, isBlank c = true) :
    Text.trim (front ++ cs) = cs := by
  have htrim := h.trim hfront (fun _ => List.not_mem_nil.elim)
  rwa [List.append_nil] at htrim

theorem trim_back (h : Solid isBlank cs) (hback : ∀ c ∈ back, isBlank c = true) :
    Text.trim (cs ++ back) = cs := by
  have htrim := h.trim (fun _ => List.not_mem_nil.elim) hback
  rwa [List.nil_append] at htrim

end Solid

end Strip

/-- Of blanks nothing is left. -/
theorem trim_blanks {gap : List Char} (h : ∀ c ∈ gap, isBlank c = true) : trim gap = [] := by
  have hstart : stripStart isBlank (gap ++ []) = [] := stripStart_append h nofun
  rw [List.append_nil] at hstart
  rw [trim, trimStart, hstart]
  rfl

/-- A text is what is left of it when blanks are trimmed, with the blanks around it. -/
theorem exists_append_trim (cs : List Char) :
    ∃ front back, cs = front ++ (trim cs ++ back) ∧ (∀ c ∈ front, isBlank c = true) ∧
      ∀ c ∈ back, isBlank c = true := by
  have hfront : cs.takeWhile isBlank ++ trimStart cs = cs := List.takeWhile_append_dropWhile
  have hback : trim cs ++ ((trimStart cs).reverse.takeWhile isBlank).reverse = trimStart cs := by
    rw [trim, trimEnd, stripEnd, ← List.reverse_append, List.takeWhile_append_dropWhile,
      List.reverse_reverse]
  refine ⟨cs.takeWhile isBlank, ((trimStart cs).reverse.takeWhile isBlank).reverse, ?_,
    List.all_eq_true.1 List.all_takeWhile, ?_⟩
  · rw [hback, hfront]
  · intro c hc
    exact List.all_eq_true.1 List.all_takeWhile c (List.mem_reverse.1 hc)

/-- What is trimmed does not begin with a blank. -/
theorem isBlank_of_mem_head?_trim {cs : List Char} {c : Char} (h : c ∈ (trim cs).head?) :
    isBlank c = false := by
  obtain ⟨rest, hrest⟩ := List.head?_eq_some_iff.1 h
  have hsuffix := List.dropWhile_suffix isBlank (l := (trimStart cs).reverse)
  obtain ⟨back, hback⟩ := List.reverse_prefix.2 hsuffix
  rw [List.reverse_reverse] at hback
  have hstart : cs.dropWhile isBlank = c :: (rest ++ back) := by
    rw [← List.cons_append, ← hrest]
    exact hback.symm
  have hhead := List.head?_dropWhile_not isBlank cs
  rw [hstart] at hhead
  exact hhead

/-- A text is cut at the first of the marks that separate its parts. -/
theorem splitOnce_append_cons {mark : Char} {cs : List Char} (h : mark ∉ cs) (rest : List Char) :
    splitOnce [mark] (cs ++ mark :: rest) = some (cs, rest) := by
  have hfrom : ∀ before, splitFrom [mark] before (cs ++ mark :: rest) =
      some (before.reverse ++ cs, rest) := by
    induction cs with
    | nil => simp [splitFrom, dropBeginning?]
    | cons c cs ih =>
      rw [List.mem_cons, not_or] at h
      intro before
      rw [List.cons_append, splitFrom]
      simp [dropBeginning?, h.1, ih h.2]
  exact hfrom []

/-- A word is cut off at a space in one way only, if nothing behind it could be part of the word. -/
theorem eq_of_append_space {word other rest behind : List Char} (hother : ' ' ∉ other)
    (hrest : ∀ c ∈ rest.head?, c ∉ word) (h : other ++ rest = word ++ ' ' :: behind) :
    other = word ∧ rest = ' ' :: behind := by
  rcases List.append_eq_append_iff.1 h with ⟨more, hword, hmore⟩ | ⟨more, hmore, hspace⟩
  · cases more with
    | nil => exact ⟨by simpa using hword.symm, hmore⟩
    | cons c more =>
      refine absurd ?_ (hrest c (by simp [hmore]))
      simp [hword]
  · cases more with
    | nil => exact ⟨by simpa using hmore, hspace.symm⟩
    | cons c more =>
      obtain ⟨rfl, -⟩ := List.cons.inj hspace
      exact absurd (by simp [hmore]) hother

/-! ## Searching a word between spaces -/

/-- What stands behind the first occurrence of the separator. -/
def behind? (sep cs : List Char) : Option (List Char) :=
  (splitOnce sep cs).map Prod.snd

/-- The word with a space on either side. -/
def spaced (word : List Char) : List Char :=
  ' ' :: (word ++ [' '])

theorem map_snd_splitFrom (sep before cs : List Char) :
    (splitFrom sep before cs).map Prod.snd = behind? sep cs := by
  rw [behind?, splitOnce]
  induction cs generalizing before with
  | nil => simp only [splitFrom]; split <;> rfl
  | cons c cs ih =>
    rw [splitFrom, splitFrom]
    split
    · rfl
    · rw [ih, ih [c]]

/-- The search goes on where the separator does not begin. -/
theorem behind?_cons_of_none {sep : List Char} {c : Char} {cs : List Char}
    (h : dropBeginning? sep (c :: cs) = none) : behind? sep (c :: cs) = behind? sep cs := by
  rw [behind?, splitOnce, splitFrom, h]
  exact map_snd_splitFrom _ _ _

theorem behind?_cons_of_some {sep : List Char} {c : Char} {cs rest : List Char}
    (h : dropBeginning? sep (c :: cs) = some rest) : behind? sep (c :: cs) = some rest := by
  rw [behind?, splitOnce, splitFrom, h]
  rfl

section Spaced

variable {word : List Char}

theorem behind?_append_of_not_mem {cs : List Char} (h : ' ' ∉ cs) (rest : List Char) :
    behind? (spaced word) (cs ++ rest) = behind? (spaced word) rest := by
  induction cs with
  | nil => rfl
  | cons c cs ih =>
    rw [List.mem_cons, not_or] at h
    rw [List.cons_append, behind?_cons_of_none (by simp [spaced, dropBeginning?, h.1]), ih h.2]

variable (hne : word ≠ []) (hword : ∀ c ∈ word, isBlank c = false)

include hne hword

/-- Of several blanks only the last can be the space in front of the word. -/
theorem behind?_blanks_append {gap : List Char} (hgap : ∀ c ∈ gap, isBlank c = true)
    (rest : List Char) :
    behind? (spaced word) (gap ++ rest) =
      if gap.getLast? = some ' ' then behind? (spaced word) (' ' :: rest)
      else behind? (spaced word) rest := by
  obtain ⟨first, tail, hfirst⟩ := List.exists_cons_of_ne_nil hne
  have hfirst' : isBlank first = false := hword first (by simp [hfirst])
  induction gap with
  | nil => simp
  | cons c gap ih =>
    obtain ⟨hc, hgap⟩ := List.forall_mem_cons.1 hgap
    cases gap with
    | nil =>
      by_cases hspace : c = ' '
      · simp [hspace]
      · rw [List.singleton_append, behind?_cons_of_none]
        · simp [hspace]
        · simp [spaced, dropBeginning?, Ne.symm hspace]
    | cons d gap =>
      have hd : first ≠ d := by
        rintro rfl
        rw [hgap _ List.mem_cons_self] at hfirst'
        cases hfirst'
      rw [List.cons_append, behind?_cons_of_none, ih hgap, List.getLast?_cons_cons]
      simp [spaced, dropBeginning?, hfirst, hd]

/-- A mark that is no part of the word is passed over. -/
theorem behind?_mark {gap : List Char} (hgap : ∀ c ∈ gap, isBlank c = true) {mark : Char}
    (hblank : isBlank mark = false) (hmark : mark ∉ word) (rest : List Char) :
    behind? (spaced word) (gap ++ mark :: rest) = behind? (spaced word) rest := by
  have hspace : ' ' ≠ mark := by
    rintro rfl
    cases hblank
  obtain ⟨first, tail, hfirst⟩ := List.exists_cons_of_ne_nil hne
  have hfirst' : first ≠ mark := by
    rintro rfl
    exact hmark (by simp [hfirst])
  have hskip : behind? (spaced word) (mark :: rest) = behind? (spaced word) rest :=
    behind?_cons_of_none (by simp [spaced, dropBeginning?, hspace])
  have hskip' : behind? (spaced word) (' ' :: mark :: rest) = behind? (spaced word) (mark :: rest) :=
    behind?_cons_of_none (by simp [spaced, dropBeginning?, hfirst, hfirst'])
  rw [behind?_blanks_append hne hword hgap, hskip', hskip, ite_self]

/-- A word is found if it is the one that is searched for and stands between two spaces, and else it
is passed over. Behind it there is none of the characters of the word. -/
theorem behind?_word {gap : List Char} (hgap : ∀ c ∈ gap, isBlank c = true) {other : List Char}
    (hother : ∀ c ∈ other, isBlank c = false) {rest : List Char} (hrest : ∀ c ∈ rest.head?, c ∉ word) :
    behind? (spaced word) (gap ++ (other ++ rest)) =
      if gap.getLast? = some ' ' ∧ other = word ∧ rest.head? = some ' ' then some rest.tail
      else behind? (spaced word) rest := by
  have hspace : ' ' ∉ other := fun hmem => absurd (hother _ hmem) (by decide)
  have hskip : behind? (spaced word) (other ++ rest) = behind? (spaced word) rest :=
    behind?_append_of_not_mem hspace rest
  rw [behind?_blanks_append hne hword hgap, hskip]
  by_cases hlast : gap.getLast? = some ' '
  · rw [if_pos hlast]
    by_cases hfound : other = word ∧ rest.head? = some ' '
    · rw [if_pos ⟨hlast, hfound⟩]
      obtain ⟨rfl, hhead⟩ := hfound
      obtain ⟨tail, rfl⟩ := List.head?_eq_some_iff.1 hhead
      refine behind?_cons_of_some (dropBeginning?_eq_some_iff.2 ?_)
      simp [spaced]
    · rw [if_neg fun h => hfound h.2, behind?_cons_of_none, hskip]
      rw [Option.eq_none_iff_forall_ne_some]
      intro behind hbehind
      have heq : other ++ rest = word ++ ' ' :: behind := by
        simpa [spaced] using dropBeginning?_eq_some_iff.1 hbehind
      obtain ⟨hsame, hhead⟩ := eq_of_append_space hspace hrest heq
      exact hfound ⟨hsame, by simp [hhead]⟩
  · rw [if_neg hlast, if_neg fun h => hlast h.1]

end Spaced

end Reparse.Text
