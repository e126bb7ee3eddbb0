import Reparse.Proofs.Layout.Brackets
import Reparse.Proofs.Statement.Items

/-!
Target lists as they are written: names, attributes and subscripts, starred targets, and lists of
targets in parentheses or brackets, to any depth, with blanks between any two tokens. A target list
has a text and the names that it binds; its items are its parts between two commas, each with the
name target that it has, if it has one.
-/

namespace Reparse

namespace Bracket

/-- The brackets of the text fit, and outside them it has only characters of a class. -/
inductive Nested : (Char → Bool) → List Char → Prop
  | nil (p : Char → Bool) : Nested p []
  | char {p : Char → Bool} {c : Char} {cs : List Char} : p c = true → isBracket c = false →
    Nested p cs → Nested p (c :: cs)
  | group {p : Char → Bool} {opener : Char} {inside cs : List Char} : isOpener opener = true →
    Nested (fun _ => true) inside → Nested p cs →
      Nested p (opener :: (inside ++ closerOf opener :: cs))

/-- Every equals sign of the text is inside a bracket, from the given depth on. -/
def Calm (depth : Nat) (cs : List Char) : Prop :=
  ∀ front back, cs = front ++ '=' :: back → 0 < front.foldl Bracket.depth depth

theorem calm_nil (d : Nat) : Calm d [] := by
  intro front back h
  simp at h

theorem calm_cons_iff {d : Nat} {c : Char} {cs : List Char} :
    Calm d (c :: cs) ↔ (c = '=' → 0 < d) ∧ Calm (depth d c) cs := by
  constructor
  · intro h
    refine ⟨fun hc => h [] cs (by rw [hc]; rfl), ?_⟩
    intro front back hcs
    exact h (c :: front) back (congrArg (c :: ·) hcs)
  · rintro ⟨hc, hcs⟩ front back h
    cases front with
    | nil => exact hc (List.cons.inj h).1
    | cons d front =>
      obtain ⟨rfl, hrest⟩ := List.cons.inj h
      exact hcs front back hrest

theorem calm_append_iff {d : Nat} {cs cs' : List Char} :
    Calm d (cs ++ cs') ↔ Calm d cs ∧ Calm (cs.foldl depth d) cs' := by
  induction cs generalizing d with
  | nil => exact (and_iff_right (calm_nil d)).symm
  | cons c cs ih => rw [List.cons_append, calm_cons_iff, calm_cons_iff, ih, and_assoc]; rfl

namespace Nested

variable {p : Char → Bool} {cs cs' : List Char}

theorem append (h : Nested p cs) (h' : Nested p cs') : Nested p (cs ++ cs') := by
  induction h with
  | nil => exact h'
  | char hc hbracket _ ih => exact .char hc hbracket (ih h')
  | @group p opener inside cs hopener hinside _ _ ih =>
    rw [List.cons_append, List.append_assoc]
    exact .group hopener hinside (ih h')

theorem of_forall (h : ∀ c ∈ cs, p c = true ∧ isBracket c = false) : Nested p cs := by
  induction cs with
  | nil => exact .nil p
  | cons c cs ih =>
    obtain ⟨⟨hp, hbracket⟩, h⟩ := List.forall_mem_cons.1 h
    exact .char hp hbracket (ih h)

theorem of_all (h : (cs.all fun c => p c && !isBracket c) = true) : Nested p cs :=
  of_forall fun c hc => by simpa using List.all_eq_true.1 h c hc

theorem depth_of_not_isBracket {c : Char} (h : isBracket c = false) (d : Nat) : depth d c = d := by
  rw [isBracket, Bool.or_eq_false_iff] at h
  simp [depth, h]

theorem depth_of_isOpener {c : Char} (h : isOpener c = true) (d : Nat) : depth d c = d + 1 := by
  simp [depth, h]

theorem depth_closerOf {opener : Char} (d : Nat) :
    depth (d + 1) (closerOf opener) = d := by
  unfold closerOf
  split
  · rfl
  split <;> rfl

/-- Behind the text the depth is what it was in front of it. -/
theorem foldl_depth (h : Nested p cs) (d : Nat) : cs.foldl depth d = d := by
  induction h generalizing d with
  | nil => rfl
  | char _ hbracket _ ih =>
    rw [List.foldl_cons, depth_of_not_isBracket hbracket, ih]
  | group hopener _ _ ihInside ih =>
    rw [List.foldl_cons, List.foldl_append, List.foldl_cons, depth_of_isOpener hopener, ihInside,
      depth_closerOf, ih]

/-- Inside a bracket every equals sign is. -/
theorem calm_of_pos (h : Nested p cs) {d : Nat} (hd : 0 < d) : Calm d cs := by
  induction h generalizing d with
  | nil => exact calm_nil d
  | char _ hbracket _ ih =>
    rw [calm_cons_iff, depth_of_not_isBracket hbracket]
    exact ⟨fun _ => hd, ih hd⟩
  | group hopener hinside _ ihInside ih =>
    rw [calm_cons_iff, depth_of_isOpener hopener, calm_append_iff, hinside.foldl_depth,
      calm_cons_iff, depth_closerOf]
    exact ⟨fun _ => hd, ihInside (Nat.succ_pos d), fun _ => Nat.succ_pos d, ih hd⟩

/-- Where no equals sign is outside brackets, every one is inside. -/
theorem calm (h : Nested p cs) (hp : p '=' = false) : Calm 0 cs := by
  induction h with
  | nil => exact calm_nil 0
  | @char p c cs hc hbracket _ ih =>
    rw [calm_cons_iff, depth_of_not_isBracket hbracket]
    refine ⟨?_, ih hp⟩
    rintro rfl
    rw [hp] at hc
    cases hc
  | @group p opener inside cs hopener hinside _ _ ih =>
    rw [calm_cons_iff, depth_of_isOpener hopener, calm_append_iff, hinside.foldl_depth,
      calm_cons_iff, depth_closerOf]
    refine ⟨?_, hinside.calm_of_pos (Nat.succ_pos 0), fun _ => Nat.succ_pos 0, ih hp⟩
    rintro rfl
    cases hopener

end Nested

end Bracket

namespace Statement

/-! ## Target lists -/

/-- A name, as it is written. -/
abbrev Name :=
  { cs : List Char // Text.isName cs = true }

/-- Blanks between two tokens. -/
abbrev Gap :=
  { cs : List Char // ∀ c ∈ cs, Text.isBlank c = true }

/-- An expression, as it is written: its brackets fit, and there is no equals sign outside them. -/
abbrev Operand :=
  { cs : List Char // cs ≠ [] ∧ Bracket.Nested (· != '=') cs }

/-- The text inside a bracket, of whatever it is made, as long as its own brackets fit. -/
abbrev Inside :=
  { cs : List Char // Bracket.Nested (fun _ => true) cs }

/-- An attribute or a subscript of an object. -/
inductive Place where
  | member (object : Operand) (front back : Gap) (name : Name)
  | subscript (object : Operand) (gap : Gap) (index : Inside)

mutual

/-- A target. A list of targets stands in brackets if `square` holds, and else in parentheses. -/
inductive Target where
  | name (n : Name)
  | place (p : Place)
  | starred (gap : Gap) (t : Target)
  | empty (square : Bool) (gap : Gap)
  | group (square : Bool) (inside : Targets)

/-- Targets with commas between them, and perhaps one behind the last, with blanks around each. -/
inductive Targets where
  | one (front : Gap) (t : Target) (back : Gap)
  | closed (front : Gap) (t : Target) (back gap : Gap)
  | more (front : Gap) (t : Target) (back : Gap) (rest : Targets)

end

/-- The bracket that opens a list of targets. -/
def opener (square : Bool) : Char :=
  if square then '[' else '('

/-- The bracket that closes a list of targets. -/
def closer (square : Bool) : Char :=
  if square then ']' else ')'

/-- The place as it is written. -/
def Place.text : Place → List Char
  | member object front back name => object.1 ++ (front.1 ++ '.' :: (back.1 ++ name.1))
  | subscript object gap index => object.1 ++ (gap.1 ++ '[' :: (index.1 ++ [']']))

mutual

/-- The target as it is written. -/
def Target.text : Target → List Char
  | .name n => n.1
  | .place p => p.text
  | .starred gap t => '*' :: (gap.1 ++ t.text)
  | .empty square gap => opener square :: (gap.1 ++ [closer square])
  | .group square inside => opener square :: (inside.text ++ [closer square])

/-- The targets as they are written. -/
def Targets.text : Targets → List Char
  | .one front t back => front.1 ++ (t.text ++ back.1)
  | .closed front t back gap => front.1 ++ (t.text ++ (back.1 ++ ',' :: gap.1))
  | .more front t back rest => front.1 ++ (t.text ++ (back.1 ++ ',' :: rest.text))

end

mutual

/-- The names that the target binds. -/
def Target.names : Target → List String
  | .name n => [String.ofList n.1]
  | .place _ => []
  | .starred _ t => t.names
  | .empty _ _ => []
  | .group _ inside => inside.names

/-- The names that the targets bind, in their order. -/
def Targets.names : Targets → List String
  | .one _ t _ => t.names
  | .closed _ t _ _ => t.names
  | .more _ t _ rest => t.names ++ rest.names

end

/-! ## Items -/

/-- What stands between two commas, and the name target that is there, if there is one. -/
structure Item where
  text : List Char
  name : Option String
deriving DecidableEq

/-- The item without a name target. -/
def Item.nameless (text : List Char) : Item :=
  ⟨text, none⟩

mutual

/-- The items of a target between two texts without commas. -/
def Target.items (front back : List Char) : Target → List Item
  | .name n => [⟨front ++ (n.1 ++ back), some (String.ofList n.1)⟩]
  | .place p => ((front ++ (p.text ++ back)).splitOn ',').map Item.nameless
  | .starred gap t => t.items (front ++ '*' :: gap.1) back
  | .empty square gap => [.nameless (front ++ opener square :: (gap.1 ++ closer square :: back))]
  | .group square inside => inside.items (front ++ [opener square]) (closer square :: back)

/-- The items of targets between two texts without commas. -/
def Targets.items (front back : List Char) : Targets → List Item
  | .one gap t gap' => t.items (front ++ gap.1) (gap'.1 ++ back)
  | .closed gap t gap' gap'' =>
    t.items (front ++ gap.1) gap'.1 ++ [.nameless (gap''.1 ++ back)]
  | .more gap t gap' rest => t.items (front ++ gap.1) gap'.1 ++ rest.items [] back

end

theorem comma_not_mem_name (n : Name) : ',' ∉ n.1 := by
  intro h
  have hword := List.all_eq_true.1 (Text.all_isWordChar_of_isName n.2) _ h
  revert hword
  decide +kernel

theorem comma_not_mem_gap (gap : Gap) : ',' ∉ gap.1 :=
  fun h => absurd (gap.2 _ h) (by decide)

theorem comma_ne_opener (square : Bool) : ',' ≠ opener square := by
  cases square <;> decide

theorem comma_ne_closer (square : Bool) : ',' ≠ closer square := by
  cases square <;> decide

mutual

/-- The items spell the target. -/
theorem Target.map_text_items (t : Target) {front back : List Char} (hfront : ',' ∉ front)
    (hback : ',' ∉ back) :
    (t.items front back).map Item.text = (front ++ (t.text ++ back)).splitOn ',' := by
  match t with
  | .name n =>
    have hname := comma_not_mem_name n
    rw [Target.text, List.splitOn_eq_singleton (by simp [hfront, hname, hback])]
    rfl
  | .place p =>
    rw [Target.items, List.map_map]
    exact List.map_id' _
  | .starred gap t =>
    have hgap := comma_not_mem_gap gap
    rw [Target.items, t.map_text_items (by simp [hfront, hgap]) hback, Target.text]
    simp
  | .empty square gap =>
    have hgap := comma_not_mem_gap gap
    rw [Target.text, List.cons_append, List.append_assoc, List.singleton_append,
      List.splitOn_eq_singleton
        (by simp [hfront, hgap, hback, comma_ne_opener, comma_ne_closer])]
    rfl
  | .group square inside =>
    rw [Target.items, inside.map_text_items (by simp [hfront, comma_ne_opener])
      (by simp [hback, comma_ne_closer]), Target.text]
    simp

/-- The items spell the targets. -/
theorem Targets.map_text_items (ts : Targets) {front back : List Char} (hfront : ',' ∉ front)
    (hback : ',' ∉ back) :
    (ts.items front back).map Item.text = (front ++ (ts.text ++ back)).splitOn ',' := by
  match ts with
  | .one gap t gap' =>
    have hgap := comma_not_mem_gap gap
    have hgap' := comma_not_mem_gap gap'
    rw [Targets.items, t.map_text_items (by simp [hfront, hgap]) (by simp [hgap', hback]),
      Targets.text]
    simp
  | .closed gap t gap' gap'' =>
    have hgap := comma_not_mem_gap gap
    have hgap' := comma_not_mem_gap gap'
    have hlast : ',' ∉ gap''.1 ++ back := by simp [comma_not_mem_gap gap'', hback]
    have hsplit : front ++ ((Targets.closed gap t gap' gap'').text ++ back) =
        (front ++ gap.1) ++ (t.text ++ gap'.1) ++ ',' :: (gap''.1 ++ back) := by
      simp [Targets.text]
    rw [Targets.items, List.map_append, t.map_text_items (by simp [hfront, hgap]) hgap', hsplit,
      List.splitOn_append_cons_self, List.splitOn_eq_singleton hlast]
    rfl
  | .more gap t gap' rest =>
    have hgap := comma_not_mem_gap gap
    have hgap' := comma_not_mem_gap gap'
    have hsplit : front ++ ((Targets.more gap t gap' rest).text ++ back) =
        (front ++ gap.1) ++ (t.text ++ gap'.1) ++ ',' :: ([] ++ (rest.text ++ back)) := by
      simp [Targets.text]
    rw [Targets.items, List.map_append, t.map_text_items (by simp [hfront, hgap]) hgap',
      rest.map_text_items List.not_mem_nil hback, hsplit, List.splitOn_append_cons_self]

end

mutual

/-- The items have the names of the target. -/
theorem Target.filterMap_name_items (t : Target) (front back : List Char) :
    (t.items front back).filterMap Item.name = t.names := by
  match t with
  | .name n => rfl
  | .place p =>
    rw [Target.items, List.filterMap_map]
    exact List.filterMap_eq_nil_iff.2 fun _ _ => rfl
  | .starred gap t => exact t.filterMap_name_items _ _
  | .empty square gap => rfl
  | .group square inside => exact inside.filterMap_name_items _ _

/-- The items have the names of the targets. -/
theorem Targets.filterMap_name_items (ts : Targets) (front back : List Char) :
    (ts.items front back).filterMap Item.name = ts.names := by
  match ts with
  | .one gap t gap' => exact t.filterMap_name_items _ _
  | .closed gap t gap' gap'' =>
    rw [Targets.items, List.filterMap_append, t.filterMap_name_items]
    exact List.append_nil _
  | .more gap t gap' rest =>
    rw [Targets.items, List.filterMap_append, t.filterMap_name_items, rest.filterMap_name_items,
      Targets.names]

end

/-- The text has no word characters, so what can be read of it is no part of a name. It has no colon
either. -/
def Wordless (cs : List Char) : Prop :=
  ∀ c ∈ cs, Text.isWordChar c = false ∧ c ≠ ':'

/-- A name target stands alone in its item, between blanks and brackets. -/
def Item.Alone (i : Item) : Prop :=
  ∀ name, i.name = some name → ∃ front word back, i.text = front ++ (word ++ back) ∧
    name = String.ofList word ∧ Text.isName word = true ∧ Wordless front ∧ Wordless back

theorem wordless_nil : Wordless [] := by
  intro c hc
  cases hc

theorem wordless_append {cs cs' : List Char} (h : Wordless cs) (h' : Wordless cs') :
    Wordless (cs ++ cs') :=
  List.forall_mem_append.2 ⟨h, h'⟩

theorem wordless_gap (gap : Gap) : Wordless gap.1 :=
  fun c hc => ⟨isWordChar_of_isBlank (gap.2 c hc), fun h => absurd (h ▸ gap.2 c hc) (by decide)⟩

theorem wordless_star {cs : List Char} (h : Wordless cs) : Wordless ('*' :: cs) :=
  List.forall_mem_cons.2 ⟨by decide +kernel, h⟩

theorem wordless_opener (square : Bool) : Wordless [opener square] := by
  rw [Wordless, List.forall_mem_singleton]
  cases square <;> decide +kernel

theorem wordless_closer (square : Bool) {cs : List Char} (h : Wordless cs) :
    Wordless (closer square :: cs) := by
  refine List.forall_mem_cons.2 ⟨?_, h⟩
  cases square <;> decide +kernel

theorem Item.alone_nameless (text : List Char) : (Item.nameless text).Alone :=
  nofun

mutual

theorem Target.alone_items (t : Target) {front back : List Char} (hfront : Wordless front)
    (hback : Wordless back) : ∀ i ∈ t.items front back, i.Alone := by
  match t with
  | .name n =>
    intro i hi name hname
    cases List.mem_singleton.1 hi
    cases hname
    exact ⟨front, n.1, back, rfl, rfl, n.2, hfront, hback⟩
  | .place p =>
    intro i hi
    obtain ⟨text, -, rfl⟩ := List.mem_map.1 hi
    exact Item.alone_nameless text
  | .starred gap t =>
    exact t.alone_items (wordless_append hfront (wordless_star (wordless_gap gap))) hback
  | .empty square gap =>
    intro i hi
    cases List.mem_singleton.1 hi
    exact Item.alone_nameless _
  | .group square inside =>
    exact inside.alone_items (wordless_append hfront (wordless_opener square))
      (wordless_closer square hback)

theorem Targets.alone_items (ts : Targets) {front back : List Char} (hfront : Wordless front)
    (hback : Wordless back) : ∀ i ∈ ts.items front back, i.Alone := by
  match ts with
  | .one gap t gap' =>
    exact t.alone_items (wordless_append hfront (wordless_gap gap))
      (wordless_append (wordless_gap gap') hback)
  | .closed gap t gap' gap'' =>
    refine List.forall_mem_append.2 ⟨?_, ?_⟩
    · exact t.alone_items (wordless_append hfront (wordless_gap gap)) (wordless_gap gap')
    · intro i hi
      cases List.mem_singleton.1 hi
      exact Item.alone_nameless _
  | .more gap t gap' rest =>
    refine List.forall_mem_append.2 ⟨?_, rest.alone_items wordless_nil hback⟩
    exact t.alone_items (wordless_append hfront (wordless_gap gap)) (wordless_gap gap')

end

/-! ## The reading of items -/

/-- The name that the item is read as. -/
def Item.found? (i : Item) : Option String :=
  itemName? i.text

theorem Item.found?_eq_some_iff {i : Item} {name : String} :
    i.found? = some name ↔ Shows i.text name :=
  itemName?_eq_some_iff

/-- Of a text without word characters nothing can be part of a name. -/
theorem Wordless.eq_nil {cs rest : List Char} (h : Wordless cs) (hsub : rest ⊆ cs)
    (hword : ∀ c ∈ rest, Text.isWordChar c = true) : rest = [] := by
  refine List.eq_nil_iff_forall_not_mem.2 fun c hc => ?_
  have hnot := (h c (hsub hc)).1
  rw [hword c hc] at hnot
  cases hnot

theorem stripStart_subset (p : Char → Bool) (cs : List Char) : Text.stripStart p cs ⊆ cs :=
  (List.dropWhile_sublist p).subset

theorem stripEnd_subset (p : Char → Bool) (cs : List Char) : Text.stripEnd p cs ⊆ cs := by
  intro c hc
  have hmem := stripStart_subset p cs.reverse (List.mem_reverse.1 hc)
  exact List.mem_reverse.1 hmem

/-- No name target is read as another name. -/
theorem Item.Alone.found? {i : Item} (h : i.Alone) {name : String} (hname : i.name = some name) :
    i.found? = some name ∨ i.found? = none := by
  obtain ⟨front, word, back, htext, rfl, hword, hfront, hback⟩ := h name hname
  have hne : word ≠ [] := by
    rintro rfl
    cases hword
  have hchars := List.all_eq_true.1 (Text.all_isWordChar_of_isName hword)
  rw [Item.found?, htext, itemName?_append_word hne hchars, name?]
  split
  · rename_i hall
    have hall := List.all_eq_true.1 (Text.all_isWordChar_of_isName hall)
    have hnone : Text.trimStart (Text.stripStart isMark (Text.trimStart front)) = [] :=
      hfront.eq_nil
        (List.Subset.trans (stripStart_subset _ _)
          (List.Subset.trans (stripStart_subset _ _) (stripStart_subset _ _)))
        fun c hc => hall c (List.mem_append_left _ hc)
    have hnone' : Text.trimEnd (Text.stripEnd isEnd (Text.trimEnd back)) = [] :=
      hback.eq_nil
        (List.Subset.trans (stripEnd_subset _ _)
          (List.Subset.trans (stripEnd_subset _ _) (stripEnd_subset _ _)))
        fun c hc => hall c (List.mem_append_right _ (List.mem_append_right _ hc))
    rw [hnone, hnone', List.nil_append, List.append_nil]
    exact .inl rfl
  · exact .inr rfl

/-- A colon is only in items without a name target. -/
theorem Item.Alone.name_eq_none {i : Item} (h : i.Alone) (hcolon : ':' ∈ i.text) :
    i.name = none := by
  rw [Option.eq_none_iff_forall_ne_some]
  intro name hname
  obtain ⟨front, word, back, htext, -, hword, hfront, hback⟩ := h name hname
  rw [htext, List.mem_append, List.mem_append] at hcolon
  rcases hcolon with hcolon | hcolon | hcolon
  · exact (hfront _ hcolon).2 rfl
  · have hchar := List.all_eq_true.1 (Text.all_isWordChar_of_isName hword) _ hcolon
    revert hchar
    decide +kernel
  · exact (hback _ hcolon).2 rfl

/-- The items as they are read: what stands behind the first colon is not looked at. -/
def cutColon : List Item → List Item
  | [] => []
  | i :: is =>
    if ':' ∈ i.text then
      ⟨i.text.takeWhile (· != ':'), i.name⟩ :: is.map fun j => ⟨[], j.name⟩
    else i :: cutColon is

theorem filterMap_name_cutColon (is : List Item) :
    (cutColon is).filterMap Item.name = is.filterMap Item.name := by
  induction is with
  | nil => rfl
  | cons i is ih =>
    rw [cutColon]
    split
    · rw [List.filterMap_cons, List.filterMap_cons, List.filterMap_map]
      rfl
    · rw [List.filterMap_cons, List.filterMap_cons, ih]

/-- A name target is read as its name or not at all, wherever the colon is. -/
theorem found?_of_mem_cutColon {is : List Item} (h : ∀ i ∈ is, i.Alone) {i : Item}
    (hi : i ∈ cutColon is) {name : String} (hname : i.name = some name) :
    i.found? = some name ∨ i.found? = none := by
  induction is with
  | nil => cases hi
  | cons first is ih =>
    obtain ⟨hfirst, hrest⟩ := List.forall_mem_cons.1 h
    rw [cutColon] at hi
    split at hi
    · rename_i hcolon
      rcases List.mem_cons.1 hi with rfl | hi
      · rw [hfirst.name_eq_none hcolon] at hname
        cases hname
      · obtain ⟨j, -, rfl⟩ := List.mem_map.1 hi
        exact .inr rfl
    · rcases List.mem_cons.1 hi with rfl | hi
      · exact hfirst.found? hname
      · exact ih hrest hi

/-- The items up to the first colon, and of the item with the colon what is in front of it. -/
def upToColon : List (List Char) → List (List Char)
  | [] => []
  | cs :: css => if ':' ∈ cs then [cs.takeWhile (· != ':')] else cs :: upToColon css

theorem filterMap_found?_cutColon (is : List Item) :
    (cutColon is).filterMap Item.found? = (upToColon (is.map Item.text)).filterMap itemName? := by
  induction is with
  | nil => rfl
  | cons i is ih =>
    rw [cutColon, List.map_cons, upToColon]
    split
    · have hnone : (is.map fun j => (⟨[], j.name⟩ : Item)).filterMap Item.found? = [] := by
        rw [List.filterMap_map]
        exact List.filterMap_eq_nil_iff.2 fun _ _ => rfl
      rw [List.filterMap_cons, hnone]
      rfl
    · rw [List.filterMap_cons, List.filterMap_cons, ih]
      rfl

theorem upToColon_modifyHead {c : Char} (hc : c ≠ ':') (css : List (List Char)) :
    upToColon (css.modifyHead (List.cons c)) = (upToColon css).modifyHead (List.cons c) := by
  cases css with
  | nil => rfl
  | cons cs css =>
    rw [List.modifyHead_cons, upToColon, upToColon]
    by_cases hcolon : ':' ∈ cs
    · rw [if_pos (List.mem_cons_of_mem c hcolon), if_pos hcolon]
      simp [hc]
    · rw [if_neg (by simp [hcolon, Ne.symm hc]), if_neg hcolon]
      rfl

/-- Cutting at the first colon and then at the commas, or the other way round. -/
theorem splitOn_takeWhile_colon (cs : List Char) :
    (cs.takeWhile (· != ':')).splitOn ',' = upToColon (cs.splitOn ',') := by
  induction cs with
  | nil => rfl
  | cons c cs ih =>
    rw [List.takeWhile_cons, List.splitOn_cons_eq_if_modifyHead]
    by_cases hcolon : c = ':'
    · subst hcolon
      obtain ⟨first, rest, hsplit⟩ := List.exists_cons_of_ne_nil (List.splitOn_ne_nil ',' cs)
      simp [hsplit, upToColon]
    · rw [if_pos (by simpa using hcolon), List.splitOn_cons_eq_if_modifyHead, ih]
      split
      · rw [upToColon, if_neg List.not_mem_nil]
      · rw [upToColon_modifyHead hcolon]

/-- The items of a target list as they are read. -/
def Targets.read (ts : Targets) : List Item :=
  cutColon (ts.items [] [])

theorem Targets.filterMap_name_read (ts : Targets) : ts.read.filterMap Item.name = ts.names := by
  rw [read, filterMap_name_cutColon, filterMap_name_items]

theorem Targets.found?_of_mem_read (ts : Targets) {i : Item} (hi : i ∈ ts.read) {name : String}
    (hname : i.name = some name) : i.found? = some name ∨ i.found? = none :=
  found?_of_mem_cutColon (ts.alone_items wordless_nil wordless_nil) hi hname

/-- The names that are read off a target list are those of its items. -/
theorem Targets.targetNames_text (ts : Targets) :
    targetNames ts.text = ts.read.filterMap Item.found? := by
  have hitems := ts.map_text_items List.not_mem_nil List.not_mem_nil
  rw [List.nil_append, List.append_nil] at hitems
  rw [targetNames_eq, splitOn_takeWhile_colon, ← hitems, read, filterMap_found?_cutColon]

end Statement

end Reparse
