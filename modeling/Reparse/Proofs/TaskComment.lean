import Reparse.Proofs.Text.Cutting
import Reparse.TaskComment

/-!
Which keyword a comment is found to begin with. The keywords of a table are tried from the longest
on, and the first that fits is taken. Keywords that begin one text begin each other, so the one that
is taken is the longest that fits, whatever the order of the table. A table is searched without its
unusable keywords with the same result unless the keyword that is found is one of these.
-/

namespace Reparse

namespace Keywords

/-- A keyword stands in the table once, so its severity is the one that it is entered with. -/
theorem get?_eq_some_iff {t : Keywords} {key : String} {severity : Severity} :
    t.get? key = some severity ↔ (key, severity) ∈ t.entries := by
  rw [get?, List.lookup_eq_some_iff]
  constructor
  · rintro ⟨front, back, hentries, -⟩
    simp [hentries]
  · intro hmem
    obtain ⟨front, back, hentries⟩ := List.append_of_mem hmem
    refine ⟨front, back, hentries, fun e he => ?_⟩
    have hnodup := t.nodup
    rw [hentries, List.map_append, List.nodup_append] at hnodup
    have hne := hnodup.2.2 e.1 (List.mem_map_of_mem he) key (List.mem_cons_self ..)
    simpa using Ne.symm hne

theorem get?_sanitize {t : Keywords} {key : String} {severity : Severity} :
    t.sanitize.get? key = some severity ↔ t.get? key = some severity ∧ usable key = true := by
  simp only [get?_eq_some_iff, sanitize, filter, List.mem_filter]

end Keywords

namespace TaskComment

/-- The text begins with the keyword, which is not empty and ends there as a word: nothing follows
it, or something other than a word character. -/
structure Begins (key : String) (cs : List Char) : Prop where
  ne_empty : key ≠ ""
  bounded : ∃ rest, cs = key.toList ++ rest ∧ ∀ c ∈ rest.head?, Text.isWordChar c = false

/-- The longest keyword of the table that begins the text, with its severity and the text. -/
structure IsLongest (t : Keywords) (cs : List Char) (hit : TaskComment) : Prop where
  entry : t.get? hit.keyword = some hit.severity
  begins : Begins hit.keyword cs
  longest : ∀ key severity, t.get? key = some severity → Begins key cs →
    key.length ≤ hit.keyword.length
  message : hit.message = String.ofList cs

/-! ## Keywords that begin one text -/

theorem fits_iff {key : String} {cs : List Char} :
    fits key cs = true ↔
      ∃ rest, cs = key.toList ++ rest ∧ ∀ c ∈ rest.head?, Text.isWordChar c = false := by
  simp only [← Text.dropBeginning?_eq_some_iff]
  unfold fits
  split
  · rename_i hnone
    simp [hnone]
  · rename_i hsome
    simp [hsome]
  · rename_i c rest hsome
    simp [hsome]

theorem begins_iff {key : String} {cs : List Char} :
    Begins key cs ↔ key ≠ "" ∧ fits key cs = true := by
  rw [fits_iff]
  exact ⟨fun h => ⟨h.ne_empty, h.bounded⟩, fun h => ⟨h.1, h.2⟩⟩

namespace Begins

variable {key key' : String} {cs : List Char}

theorem isPrefix (h : Begins key cs) : key.toList <+: cs := by
  obtain ⟨rest, hcs, -⟩ := h.bounded
  exact ⟨rest, hcs.symm⟩

/-- Of two keywords that begin one text, the shorter begins the longer. -/
theorem isPrefix_of_length_le (h : Begins key cs) (h' : Begins key' cs)
    (hle : key.length ≤ key'.length) : key.toList <+: key'.toList :=
  List.prefix_of_prefix_length_le h.isPrefix h'.isPrefix
    (by rwa [String.length_toList, String.length_toList])

/-- Keywords that begin one text and are equally long are equal. -/
theorem eq_of_length_eq (h : Begins key cs) (h' : Begins key' cs)
    (heq : key.length = key'.length) : key = key' :=
  String.toList_injective ((h.isPrefix_of_length_le h' (Nat.le_of_eq heq)).eq_of_length
    (by rwa [String.length_toList, String.length_toList]))

end Begins

/-- A longer text has more octets than one that it begins with. -/
theorem utf8ByteSize_lt_of_isPrefix {a b : String} (h : a.toList <+: b.toList) (hne : a ≠ b) :
    a.utf8ByteSize < b.utf8ByteSize := by
  obtain ⟨rest, hrest⟩ := h
  have hb : b = a ++ String.ofList rest := by
    rw [← String.toList_inj, String.toList_append, String.toList_ofList, hrest]
  have hpos : (String.ofList rest).utf8ByteSize ≠ 0 := by
    rw [Ne, String.utf8ByteSize_eq_zero_iff]
    intro hnil
    exact hne (by rw [hb, hnil, String.append_empty])
  rw [hb, String.utf8ByteSize_append]
  omega

/-- Keywords that begin one text are as long in characters as they are in octets. -/
theorem Begins.length_le {key key' : String} {cs : List Char} (h : Begins key cs)
    (h' : Begins key' cs) (hle : key.utf8ByteSize ≤ key'.utf8ByteSize) :
    key.length ≤ key'.length := by
  refine Nat.le_of_not_lt fun hshorter => ?_
  have hmore := utf8ByteSize_lt_of_isPrefix (h'.isPrefix_of_length_le h (Nat.le_of_lt hshorter))
    (fun heq => Nat.lt_irrefl _ (heq ▸ hshorter))
  omega

/-! ## The order in which keywords are tried -/

theorem ranks_iff {a b : String × Severity} :
    ranks a b = true ↔
      b.1.utf8ByteSize < a.1.utf8ByteSize ∨ a.1.utf8ByteSize = b.1.utf8ByteSize ∧ a.1 ≤ b.1 := by
  simp [ranks]

theorem ranks_trans (a b c : String × Severity) (hab : ranks a b = true) (hbc : ranks b c = true) :
    ranks a c = true := by
  rw [ranks_iff] at *
  rcases hab with hab | ⟨hab, hab'⟩ <;> rcases hbc with hbc | ⟨hbc, hbc'⟩
  · exact .inl (Nat.lt_trans hbc hab)
  · exact .inl (hbc ▸ hab)
  · exact .inl (hab ▸ hbc)
  · exact .inr ⟨hab.trans hbc, String.le_trans hab' hbc'⟩

theorem ranks_total (a b : String × Severity) : (ranks a b || ranks b a) = true := by
  rw [Bool.or_eq_true, ranks_iff, ranks_iff]
  rcases Nat.lt_trichotomy a.1.utf8ByteSize b.1.utf8ByteSize with hlt | heq | hlt
  · exact .inr (.inl hlt)
  · rcases String.le_total a.1 b.1 with hle | hle
    · exact .inl (.inr ⟨heq, hle⟩)
    · exact .inr (.inr ⟨heq.symm, hle⟩)
  · exact .inl (.inl hlt)

namespace Finder

theorem mem_ranked_iff {t : Keywords} {e : String × Severity} :
    e ∈ (ofKeywords t).ranked ↔ t.get? e.1 = some e.2 ∧ e.1 ≠ "" := by
  simp only [ofKeywords, (List.mergeSort_perm _ _).mem_iff, List.mem_filter,
    Keywords.get?_eq_some_iff, Bool.not_eq_true', ← Bool.not_eq_true, String.isEmpty_iff]

theorem pairwise_ranked (t : Keywords) :
    (ofKeywords t).ranked.Pairwise fun a b => ranks a b = true :=
  List.pairwise_mergeSort ranks_trans ranks_total _

/-! ## What is found -/

/-- Whatever fits is tried behind the keyword that is found. -/
theorem isLongest_of_find? {t : Keywords} {comment : List Char} {hit : TaskComment}
    (h : (ofKeywords t).find? comment = some hit) : IsLongest t (text comment) hit := by
  obtain ⟨e, hfind, rfl⟩ := Option.map_eq_some_iff.1 h
  obtain ⟨hfits, before, after, hranked, hbefore⟩ := List.find?_eq_some_iff_append.1 hfind
  have hmem : e ∈ (ofKeywords t).ranked := by simp [hranked]
  obtain ⟨hentry, hne⟩ := mem_ranked_iff.1 hmem
  have hbegins : Begins e.1 (text comment) := begins_iff.2 ⟨hne, hfits⟩
  refine ⟨hentry, hbegins, fun key severity hkey hbegins' => ?_, rfl⟩
  have hmem' : (key, severity) ∈ before ++ e :: after :=
    hranked ▸ mem_ranked_iff.2 ⟨hkey, hbegins'.ne_empty⟩
  rcases List.mem_append.1 hmem' with hin | hin
  · have hnot := hbefore _ hin
    rw [(begins_iff.1 hbegins').2] at hnot
    cases hnot
  · rcases List.mem_cons.1 hin with rfl | hin
    · exact Nat.le_refl _
    · have hpairwise := pairwise_ranked t
      rw [hranked] at hpairwise
      have hranks := (List.pairwise_cons.1 (List.pairwise_append.1 hpairwise).2.1).1 _ hin
      refine hbegins'.length_le hbegins ?_
      rcases ranks_iff.1 hranks with hlt | ⟨heq, -⟩
      · exact Nat.le_of_lt hlt
      · exact Nat.le_of_eq heq.symm

/-- Nothing is found only where no keyword begins the text. -/
theorem not_begins_of_find? {t : Keywords} {comment : List Char}
    (h : (ofKeywords t).find? comment = Option.none) {key : String} {severity : Severity}
    (hkey : t.get? key = some severity) : ¬Begins key (text comment) := by
  intro hbegins
  have hnone := List.find?_eq_none.1 (Option.map_eq_none_iff.1 h) (key, severity)
    (mem_ranked_iff.2 ⟨hkey, hbegins.ne_empty⟩)
  exact hnone (begins_iff.1 hbegins).2

end Finder

theorem isLongest_iff {t : Keywords} {cs : List Char} {hit : TaskComment} :
    IsLongest t cs hit ↔
      t.get? hit.keyword = some hit.severity ∧ (hit.keyword ≠ "" ∧ fits hit.keyword cs = true) ∧
        (∀ e ∈ t.entries, e.1 ≠ "" ∧ fits e.1 cs = true → e.1.length ≤ hit.keyword.length) ∧
        hit.message = String.ofList cs := by
  simp only [← begins_iff]
  constructor
  · intro h
    exact ⟨h.entry, h.begins, fun e he => h.longest e.1 e.2 (Keywords.get?_eq_some_iff.2 he),
      h.message⟩
  · rintro ⟨hentry, hbegins, hlongest, hmessage⟩
    exact ⟨hentry, hbegins,
      fun key severity hkey => hlongest (key, severity) (Keywords.get?_eq_some_iff.1 hkey), hmessage⟩

instance (t : Keywords) (cs : List Char) (hit : TaskComment) : Decidable (IsLongest t cs hit) :=
  decidable_of_iff' _ isLongest_iff

/-- The order of the table does not matter. -/
theorem IsLongest.congr {t u : Keywords} {cs : List Char} {hit : TaskComment}
    (h : IsLongest t cs hit)
    (heq : ∀ key severity, t.get? key = some severity ↔ u.get? key = some severity) :
    IsLongest u cs hit where
  entry := (heq _ _).1 h.entry
  begins := h.begins
  longest key severity hkey := h.longest key severity ((heq _ _).2 hkey)
  message := h.message

/-- The longest keyword that begins a text is one only. -/
theorem IsLongest.unique {t : Keywords} {cs : List Char} {hit hit' : TaskComment}
    (h : IsLongest t cs hit) (h' : IsLongest t cs hit') : hit = hit' := by
  have hkeyword : hit.keyword = hit'.keyword :=
    h.begins.eq_of_length_eq h'.begins
      (Nat.le_antisymm (h'.longest _ _ h.entry h.begins) (h.longest _ _ h'.entry h'.begins))
  have hseverity : hit.severity = hit'.severity := by
    have hentry := h.entry
    rw [hkeyword, h'.entry] at hentry
    exact (Option.some.inj hentry).symm
  have hmessage : hit.message = hit'.message := h.message.trans h'.message.symm
  cases hit
  cases hit'
  simp_all

namespace Finder

theorem find?_eq_some_iff {t : Keywords} {comment : List Char} {hit : TaskComment} :
    (ofKeywords t).find? comment = some hit ↔ IsLongest t (text comment) hit := by
  refine ⟨isLongest_of_find?, fun h => ?_⟩
  cases hfind : (ofKeywords t).find? comment with
  | none => exact absurd h.begins (not_begins_of_find? hfind h.entry)
  | some hit' => rw [(isLongest_of_find? hfind).unique h]

theorem isSome_find?_iff {t : Keywords} {comment : List Char} :
    ((ofKeywords t).find? comment).isSome = true ↔
      ∃ key severity, t.get? key = some severity ∧ Begins key (text comment) := by
  constructor
  · intro h
    obtain ⟨hit, hfind⟩ := Option.isSome_iff_exists.1 h
    have hlongest := isLongest_of_find? hfind
    exact ⟨hit.keyword, hit.severity, hlongest.entry, hlongest.begins⟩
  · rintro ⟨key, severity, hkey, hbegins⟩
    rw [Option.isSome_iff_ne_none]
    intro hnone
    exact not_begins_of_find? hnone hkey hbegins

end Finder

/-- Of the keywords that begin a comment's text the longest is found, with its severity in the table
and the text as the message; something is found wherever one of them begins it, and the order of the
table does not matter. -/
theorem find?_longest (t : Keywords) (comment : List Char) :
    (((Finder.ofKeywords t).find? comment).isSome = true ↔
      ∃ key severity, t.get? key = some severity ∧ Begins key (text comment)) ∧
    (∀ hit, (Finder.ofKeywords t).find? comment = some hit ↔ IsLongest t (text comment) hit) ∧
    ∀ u : Keywords, u.entries.Perm t.entries →
      (Finder.ofKeywords u).find? comment = (Finder.ofKeywords t).find? comment := by
  refine ⟨Finder.isSome_find?_iff, fun hit => Finder.find?_eq_some_iff, fun u hperm => ?_⟩
  have hentries : ∀ key severity, u.get? key = some severity ↔ t.get? key = some severity := by
    intro key severity
    rw [Keywords.get?_eq_some_iff, Keywords.get?_eq_some_iff, hperm.mem_iff]
  refine Option.ext fun hit => ?_
  rw [Finder.find?_eq_some_iff, Finder.find?_eq_some_iff]
  exact ⟨fun h => h.congr hentries, fun h => h.congr fun key severity => (hentries key severity).symm⟩

/-- Two tables that differ only in order, with a keyword that is longer in octets than in characters
and one that is longer but has no end in the comment. -/
theorem find?_longest_of_reversed :
    let t := Keywords.ofList [("TODO", .hint), ("TODO!", .error), ("TODO! ü", .warning)]
    let u := Keywords.ofList [("TODO! ü", .warning), ("TODO!", .error), ("TODO", .hint)]
    (Finder.ofKeywords t).find? "# TODO! über".toList = some ⟨"TODO!", .error, "TODO! über"⟩ ∧
      (Finder.ofKeywords u).find? "# TODO! über".toList =
        (Finder.ofKeywords t).find? "# TODO! über".toList := by
  intro t u
  obtain ⟨-, hfound, horder⟩ := find?_longest t "# TODO! über".toList
  exact ⟨(hfound _).2 (by decide +kernel), horder u (by decide)⟩

/-! ## Tables without unusable keywords -/

theorem usable_iff {key : String} :
    Keywords.usable key = true ↔ key ≠ "" ∧ ∀ c ∈ key.toList, Text.isBlank c = false := by
  simp [Keywords.usable]

theorem IsLongest.sanitize {t : Keywords} {cs : List Char} {hit : TaskComment}
    (h : IsLongest t cs hit) (husable : Keywords.usable hit.keyword = true) :
    IsLongest t.sanitize cs hit where
  entry := Keywords.get?_sanitize.2 ⟨h.entry, husable⟩
  begins := h.begins
  longest key severity hkey := h.longest key severity (Keywords.get?_sanitize.1 hkey).1
  message := h.message

/-- With the sanitized table the same is found, unless the keyword that is found with the whole table
is dropped. -/
theorem find?_sanitize_eq_iff {t : Keywords} {comment : List Char} :
    (Finder.ofKeywords t.sanitize).find? comment = (Finder.ofKeywords t).find? comment ↔
      ∀ hit, (Finder.ofKeywords t).find? comment = some hit →
        ∀ c ∈ hit.keyword.toList, Text.isBlank c = false := by
  constructor
  · intro heq hit hfind
    rw [← heq, Finder.find?_eq_some_iff] at hfind
    exact (usable_iff.1 (Keywords.get?_sanitize.1 hfind.entry).2).2
  · intro hblank
    cases hfind : (Finder.ofKeywords t).find? comment with
    | none =>
      rw [← Option.not_isSome_iff_eq_none, Finder.isSome_find?_iff]
      rintro ⟨key, severity, hkey, hbegins⟩
      exact Finder.not_begins_of_find? hfind (Keywords.get?_sanitize.1 hkey).1 hbegins
    | some hit =>
      have hlongest := Finder.isLongest_of_find? hfind
      rw [Finder.find?_eq_some_iff]
      exact hlongest.sanitize (usable_iff.2 ⟨hlongest.begins.ne_empty, hblank hit hfind⟩)

/-- A keyword that begins a comment's text does not begin with a blank. -/
theorem Begins.isBlank_of_mem_head? {key : String} {comment : List Char}
    (h : Begins key (text comment)) {c : Char} (hc : c ∈ key.toList.head?) :
    Text.isBlank c = false := by
  obtain ⟨rest, hrest, -⟩ := h.bounded
  obtain ⟨tail, htail⟩ := List.head?_eq_some_iff.1 hc
  have hmem : c ∈ (text comment).head? := by
    rw [hrest, htail]
    rfl
  exact Text.isBlank_of_mem_head?_trim hmem

/-- Every keyword that does not begin with a blank begins the text of some comment. -/
theorem exists_begins {key : String} (hne : key ≠ "")
    (hhead : ∀ c ∈ key.toList.head?, Text.isBlank c = false) :
    ∃ comment, Begins key (text comment) := by
  have hmark : ∀ c ∈ ['!'].head?, Text.isWordChar c = false := by
    intro c hc
    obtain rfl := Option.some.inj hc
    decide +kernel
  refine ⟨'#' :: (key.toList ++ ['!']), hne, ['!'], ?_, hmark⟩
  have hsolid : Text.Solid Text.isBlank (key.toList ++ ['!']) := by
    refine ⟨?_, key.toList, '!', rfl, by decide⟩
    obtain ⟨c, rest, hcs⟩ := List.exists_cons_of_ne_nil fun hnil =>
      hne (String.toList_eq_nil_iff.1 hnil)
    exact ⟨c, rest ++ ['!'], by rw [hcs, List.cons_append], hhead c (by rw [hcs]; rfl)⟩
  have htrim := hsolid.trim (List.forall_mem_nil _) (List.forall_mem_nil _)
  rwa [List.nil_append, List.append_nil] at htrim

/-- Sanitizing a table changes what is found in a comment exactly where the keyword that is found with
the whole table holds a blank. So it changes nothing in any comment exactly if every keyword of the
table that holds a blank begins with one. -/
theorem find?_sanitize (t : Keywords) :
    (∀ comment, (Finder.ofKeywords t.sanitize).find? comment = (Finder.ofKeywords t).find? comment ↔
      ∀ hit, (Finder.ofKeywords t).find? comment = some hit →
        ∀ c ∈ hit.keyword.toList, Text.isBlank c = false) ∧
    ((∀ comment, (Finder.ofKeywords t.sanitize).find? comment =
        (Finder.ofKeywords t).find? comment) ↔
      ∀ key severity, t.get? key = some severity → (∃ c ∈ key.toList, Text.isBlank c = true) →
        ∃ c ∈ key.toList.head?, Text.isBlank c = true) := by
  refine ⟨fun comment => find?_sanitize_eq_iff, ?_, ?_⟩
  · rintro hsame key severity hkey ⟨c, hc, hblank⟩
    refine Classical.byContradiction fun hhead => ?_
    have hne : key ≠ "" := by
      rintro rfl
      cases hc
    obtain ⟨comment, hbegins⟩ := exists_begins hne (by simpa using hhead)
    obtain ⟨hit, hfind⟩ := Option.isSome_iff_exists.1
      (Finder.isSome_find?_iff.2 ⟨key, severity, hkey, hbegins⟩)
    have hlongest := Finder.isLongest_of_find? hfind
    -- the keyword that is found is the given one or a longer one, so it holds the same blank
    have hbegun := hbegins.isPrefix_of_length_le hlongest.begins
      (hlongest.longest key severity hkey hbegins)
    have hnot := find?_sanitize_eq_iff.1 (hsame comment) hit hfind c (hbegun.subset hc)
    rw [hblank] at hnot
    cases hnot
  · intro hblanks comment
    refine find?_sanitize_eq_iff.2 fun hit hfind c hc => ?_
    have hlongest := Finder.isLongest_of_find? hfind
    rw [Bool.eq_false_iff]
    intro hblank
    obtain ⟨d, hd, hblank'⟩ := hblanks _ _ hlongest.entry ⟨c, hc, hblank⟩
    rw [hlongest.begins.isBlank_of_mem_head? hd] at hblank'
    cases hblank'

/-- Two keywords of which the longer holds a blank. -/
def spacedKeywords : Keywords :=
  .ofList [("TO", .hint), ("TO DO", .warning)]

/-- A keyword that holds a blank is found, and the sanitized table finds another in its place. -/
theorem not_forall_find?_sanitize :
    (Finder.ofKeywords spacedKeywords).find? "# TO DO: tests".toList =
        some ⟨"TO DO", .warning, "TO DO: tests"⟩ ∧
      (Finder.ofKeywords spacedKeywords.sanitize).find? "# TO DO: tests".toList =
        some ⟨"TO", .hint, "TO DO: tests"⟩ ∧
      ¬∀ (t : Keywords) comment, (Finder.ofKeywords t.sanitize).find? comment =
        (Finder.ofKeywords t).find? comment := by
  have hfound : (Finder.ofKeywords spacedKeywords).find? "# TO DO: tests".toList =
      some ⟨"TO DO", .warning, "TO DO: tests"⟩ :=
    Finder.find?_eq_some_iff.2 (by decide +kernel)
  have hsanitized : (Finder.ofKeywords spacedKeywords.sanitize).find? "# TO DO: tests".toList =
      some ⟨"TO", .hint, "TO DO: tests"⟩ :=
    Finder.find?_eq_some_iff.2 (by decide +kernel)
  refine ⟨hfound, hsanitized, fun hsame => ?_⟩
  have heq := hsame spacedKeywords "# TO DO: tests".toList
  rw [hfound, hsanitized] at heq
  exact absurd heq (by decide)

end TaskComment

end Reparse
