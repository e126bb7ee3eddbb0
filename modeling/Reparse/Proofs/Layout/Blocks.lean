import Mathlib.Data.List.TakeWhile
import Reparse.Layout.LogicalLine

/-!
The grammar of blocks. A block is a sequence of items that all begin at one column, and an item is
a line that is no header, or a header with a block further in. `Nest` reads lines one by one with
no more than a stack of columns and one look back. Main statement: it accepts exactly the lines
that the grammar derives, whatever their nesting, and however many blocks a line ends.
-/

namespace Reparse.Layout

mutual

/-- The lines are a block at the column. -/
inductive Block : Nat → List LogicalLine → Prop where
  | item {c : Nat} {ls : List LogicalLine} : Item c ls → Block c ls
  | cons {c : Nat} {ls ms : List LogicalLine} : Item c ls → Block c ms → Block c (ls ++ ms)

/-- The lines are one item at the column. -/
inductive Item : Nat → List LogicalLine → Prop where
  | line {c : Nat} {l : LogicalLine} : l.indent = c → l.isHeader = false → Item c [l]
  | header {c c' : Nat} {l : LogicalLine} {ls : List LogicalLine} :
      l.indent = c → l.isHeader = true → c < c' → Block c' ls → Item c (l :: ls)

end

/-! ## Items one after the other -/

/-- The lines are items at the column, of which there may be none. The first line is told apart
here, so that lines can be taken one by one. -/
inductive Items : Nat → List LogicalLine → Prop where
  | nil (c : Nat) : Items c []
  | line {c : Nat} {l : LogicalLine} {ls : List LogicalLine} :
      l.indent = c → l.isHeader = false → Items c ls → Items c (l :: ls)
  | header {c c' : Nat} {l : LogicalLine} {ls ms : List LogicalLine} :
      l.indent = c → l.isHeader = true → c < c' → ls ≠ [] → Items c' ls → Items c ms →
      Items c (l :: (ls ++ ms))

mutual

theorem Block.items {c : Nat} {ls : List LogicalLine} : Block c ls → Items c ls ∧ ls ≠ []
  | .item h => by simpa using h.items (.nil c)
  | .cons h hs => h.items hs.items.1

theorem Item.items {c : Nat} {ls ms : List LogicalLine} :
    Item c ls → Items c ms → Items c (ls ++ ms) ∧ ls ++ ms ≠ []
  | .line hc h, hms => ⟨.line hc h hms, nofun⟩
  | .header hc h hlt hbody, hms => ⟨.header hc h hlt hbody.items.2 hbody.items.1 hms, nofun⟩

end

theorem Item.block {c : Nat} {ls ms : List LogicalLine} (h : Item c ls)
    (hms : ms ≠ [] → Block c ms) : Block c (ls ++ ms) := by
  cases ms with
  | nil =>
    rw [List.append_nil]
    exact .item h
  | cons m ms => exact .cons h (hms nofun)

theorem Items.block {c : Nat} {ls : List LogicalLine} (h : Items c ls) : ls ≠ [] → Block c ls := by
  induction h with
  | nil c => exact fun hne => absurd rfl hne
  | line hc h _ ih => exact fun _ => (Item.line hc h).block ih
  | header hc h hlt hne _ _ ihbody ih =>
    exact fun _ => (Item.header hc h hlt (ihbody hne)).block ih

theorem items_zero_iff {ls : List LogicalLine} : Items 0 ls ↔ ls = [] ∨ Block 0 ls := by
  constructor
  · intro h
    by_cases hne : ls = []
    · exact .inl hne
    · exact .inr (h.block hne)
  · rintro (rfl | h)
    · exact .nil 0
    · exact h.items.1

theorem Items.indent_eq {c : Nat} {l : LogicalLine} {ls : List LogicalLine}
    (h : Items c (l :: ls)) : l.indent = c := by
  cases h <;> assumption

/-! ## Lines behind open blocks -/

/-- The lines can follow where blocks are open at the given columns (innermost first): they go on
with the innermost block, then with the one around it, and so on. -/
def Continues : List Nat → List LogicalLine → Prop
  | [], ls => ls = []
  | c :: columns, ls => ∃ body rest, ls = body ++ rest ∧ Items c body ∧ Continues columns rest

/-- Each column is further in than those behind it. -/
def Rising (columns : List Nat) : Prop :=
  columns.Pairwise fun inner outer => outer < inner

theorem rising_cons {c : Nat} {columns : List Nat} (hc : columns.headD 0 < c)
    (h : Rising columns) : Rising (c :: columns) := by
  refine List.pairwise_cons.2 ⟨?_, h⟩
  cases columns with
  | nil => exact nofun
  | cons top columns =>
    intro outer houter
    rcases List.mem_cons.1 houter with rfl | houter
    · exact hc
    · exact Nat.lt_trans ((List.pairwise_cons.1 h).1 outer houter) hc

theorem Rising.dropWhile {columns : List Nat} (h : Rising columns) (p : Nat → Bool) :
    Rising (columns.dropWhile p) :=
  List.Pairwise.sublist (List.dropWhile_sublist p) h

/-- Further in than all columns there is none. -/
theorem Rising.not_mem {columns : List Nat} (h : Rising columns) {c : Nat}
    (hc : columns.headD 0 < c) : c ∉ columns := by
  intro hmem
  exact Nat.lt_irrefl c ((List.pairwise_cons.1 (rising_cons hc h)).1 c hmem)

theorem continues_nil (columns : List Nat) : Continues columns [] := by
  induction columns with
  | nil => rfl
  | cons c columns ih => exact ⟨[], [], rfl, .nil c, ih⟩

/-- A line goes on with a block that is open. -/
theorem Continues.indent_mem {columns : List Nat} {l : LogicalLine} {ls : List LogicalLine}
    (h : Continues columns (l :: ls)) : l.indent ∈ columns := by
  induction columns with
  | nil => cases h
  | cons c columns ih =>
    obtain ⟨body, rest, heq, hbody, hrest⟩ := h
    cases body with
    | nil =>
      rw [List.nil_append] at heq
      exact .tail _ (ih (heq ▸ hrest))
    | cons b body =>
      obtain ⟨rfl, -⟩ := List.cons.inj heq
      rw [hbody.indent_eq]
      exact .head _

/-- A line ends the blocks that are further in than itself. -/
theorem continues_dropWhile_iff {columns : List Nat} {l : LogicalLine} {ls : List LogicalLine} :
    Continues (columns.dropWhile (l.indent < ·)) (l :: ls) ↔ Continues columns (l :: ls) := by
  induction columns with
  | nil => rfl
  | cons c columns ih =>
    rw [List.dropWhile_cons]
    split
    · rename_i hlt
      rw [ih]
      constructor
      · exact fun h => ⟨[], l :: ls, rfl, .nil c, h⟩
      · rintro ⟨body, rest, heq, hbody, hrest⟩
        cases body with
        | nil => exact heq ▸ hrest
        | cons b body =>
          obtain ⟨rfl, -⟩ := List.cons.inj heq
          rw [hbody.indent_eq] at hlt
          simp at hlt
    · rfl

/-! ## Reading line by line -/

/-- What is open between two lines: the columns of the blocks (innermost first), and whether the
last line is a header. -/
structure Nest where
  columns : List Nat
  awaits : Bool

namespace Nest

/-- Before the first line, a block at the very left is open. -/
def initial : Nest := ⟨[0], false⟩

/-- The columns after a line has begun at a column: further in right after a header and nowhere
else, and otherwise at a column that is open. -/
def enter? (n : Nest) (column : Nat) : Option (List Nat) :=
  if n.columns.headD 0 < column then
    if n.awaits then some (column :: n.columns) else none
  else
    let left := n.columns.dropWhile (column < ·)
    if n.awaits = false ∧ left.head? = some column then some left else none

/-- What is open after one more line, if the line may stand there. -/
def step? (n : Nest) (l : LogicalLine) : Option Nest :=
  (n.enter? l.indent).map (⟨·, l.isHeader⟩)

/-- The lines may stand there one after the other, and the last one is no header. -/
def Accepts (n : Nest) (ls : List LogicalLine) : Prop :=
  ∃ columns, ls.foldlM step? n = some ⟨columns, false⟩

/-- The lines are what the grammar allows there: right after a header a block further in with lines
that go on with the open blocks, and elsewhere only the latter. -/
def Derives (n : Nest) (ls : List LogicalLine) : Prop :=
  if n.awaits then
    ∃ l ms, ls = l :: ms ∧ n.columns.headD 0 < l.indent ∧ Continues (l.indent :: n.columns) ls
  else Continues n.columns ls

variable {n : Nest} {l : LogicalLine} {ls : List LogicalLine}

theorem accepts_nil : n.Accepts [] ↔ n.awaits = false := by
  obtain ⟨columns, awaits⟩ := n
  simp [Accepts]

theorem accepts_cons : n.Accepts (l :: ls) ↔
    ∃ columns, n.enter? l.indent = some columns ∧ Accepts ⟨columns, l.isHeader⟩ ls := by
  simp only [Accepts, List.foldlM_cons, step?, Option.bind_eq_bind, Option.bind_eq_some_iff,
    Option.map_eq_some_iff]
  constructor
  · rintro ⟨_, _, ⟨columns, henter, rfl⟩, hls⟩
    exact ⟨columns, henter, _, hls⟩
  · rintro ⟨columns, henter, _, hls⟩
    exact ⟨_, _, ⟨columns, henter, rfl⟩, hls⟩

theorem derives_nil : n.Derives [] ↔ n.awaits = false := by
  obtain ⟨columns, awaits⟩ := n
  cases awaits with
  | false => simp [Derives, continues_nil]
  | true => simp [Derives]

/-- A line at the column of the innermost block goes on with it, and if it is a header, what
follows has to begin with a block of its own. -/
theorem continues_cons_iff {columns : List Nat} (hrising : Rising (l.indent :: columns)) :
    Continues (l.indent :: columns) (l :: ls) ↔ Derives ⟨l.indent :: columns, l.isHeader⟩ ls := by
  unfold Derives
  constructor
  · rintro ⟨body, rest, heq, hbody, hrest⟩
    cases body with
    | nil =>
      -- No outer block has a line that stands at the column of the innermost one.
      rw [List.nil_append] at heq
      have hmem := Continues.indent_mem (heq ▸ hrest)
      exact absurd ((List.pairwise_cons.1 hrising).1 _ hmem) (Nat.lt_irrefl _)
    | cons b body =>
      obtain ⟨rfl, rfl⟩ := List.cons.inj heq
      cases hbody with
      | line _ hheader hls =>
        simp only [hheader, Bool.false_eq_true, if_false]
        exact ⟨body, rest, rfl, hls, hrest⟩
      | @header _ c _ ms more _ hheader hlt hne hms hmore =>
        obtain ⟨m, ms, rfl⟩ := List.exists_cons_of_ne_nil hne
        obtain rfl := hms.indent_eq
        simp only [hheader, if_true]
        exact ⟨m, _, rfl, hlt, m :: ms, more ++ rest, List.append_assoc _ _ _, hms, more, rest,
          rfl, hmore, hrest⟩
  · intro h
    cases hheader : l.isHeader with
    | false =>
      simp only [hheader, Bool.false_eq_true, if_false] at h
      obtain ⟨body, rest, rfl, hbody, hrest⟩ := h
      exact ⟨l :: body, rest, rfl, .line rfl hheader hbody, hrest⟩
    | true =>
      simp only [hheader, if_true] at h
      obtain ⟨m, ms, rfl, hlt, inner, outer, heq, hinner, body, rest, rfl, hbody, hrest⟩ := h
      -- Its first line stands further in than all open blocks, so the block is not empty.
      have hne : inner ≠ [] := by
        rintro rfl
        have hmem : m.indent ∈ l.indent :: columns :=
          Continues.indent_mem ⟨body, rest, heq, hbody, hrest⟩
        exact hrising.not_mem hlt hmem
      exact ⟨l :: (inner ++ body), rest, by simp [heq],
        .header rfl hheader hlt hne hinner hbody, hrest⟩

theorem enter?_eq_some_iff {column : Nat} {columns : List Nat} :
    n.enter? column = some columns ↔
      n.awaits = true ∧ n.columns.headD 0 < column ∧ columns = column :: n.columns ∨
        n.awaits = false ∧ ¬n.columns.headD 0 < column ∧ columns.head? = some column ∧
          columns = n.columns.dropWhile (column < ·) := by
  obtain ⟨before, awaits⟩ := n
  cases awaits <;> grind [enter?]

/-- A line opens its column or stands at one that is open. -/
theorem rising_of_enter? (hrising : Rising n.columns) {column : Nat} {columns : List Nat}
    (h : n.enter? column = some columns) : Rising columns ∧ columns.head? = some column := by
  rcases enter?_eq_some_iff.1 h with ⟨-, hlt, rfl⟩ | ⟨-, -, hhead, rfl⟩
  · exact ⟨rising_cons hlt hrising, rfl⟩
  · exact ⟨hrising.dropWhile _, hhead⟩

/-- Where blocks that a line can go on with are open, it stands at the innermost column that it
leaves open. -/
theorem head?_dropWhile_of_mem {columns : List Nat} (hrising : Rising columns) {column : Nat}
    (h : column ∈ columns) : (columns.dropWhile (column < ·)).head? = some column := by
  induction columns with
  | nil => cases h
  | cons c columns ih =>
    rw [List.dropWhile_cons]
    split
    · rename_i hlt
      rcases List.mem_cons.1 h with rfl | hmem
      · simp at hlt
      · exact ih (List.pairwise_cons.1 hrising).2 hmem
    · rename_i hnot
      rcases List.mem_cons.1 h with rfl | hmem
      · rfl
      · have hlt := (List.pairwise_cons.1 hrising).1 column hmem
        simp [hlt] at hnot

/-- A line may stand where the grammar allows it. -/
theorem derives_cons (hrising : Rising n.columns) : n.Derives (l :: ls) ↔
    ∃ columns, n.enter? l.indent = some columns ∧ Continues columns (l :: ls) := by
  simp only [enter?_eq_some_iff]
  obtain ⟨columns, awaits⟩ := n
  cases awaits with
  | true =>
    simp only [Derives, if_true, List.cons.injEq, true_and]
    constructor
    · rintro ⟨_, _, ⟨rfl, rfl⟩, hlt, h⟩
      exact ⟨_, .inl ⟨hlt, rfl⟩, h⟩
    · rintro ⟨_, ⟨hlt, rfl⟩ | ⟨⟨⟩, -⟩, h⟩
      exact ⟨_, _, ⟨rfl, rfl⟩, hlt, h⟩
  | false =>
    simp only [Derives, Bool.false_eq_true, if_false, false_and, false_or, true_and]
    constructor
    · intro h
      have hmem := h.indent_mem
      have hnot : ¬columns.headD 0 < l.indent := fun hlt => hrising.not_mem hlt hmem
      exact ⟨_, ⟨hnot, head?_dropWhile_of_mem hrising hmem, rfl⟩, continues_dropWhile_iff.2 h⟩
    · rintro ⟨_, ⟨-, -, rfl⟩, h⟩
      exact continues_dropWhile_iff.1 h

/-- The lines that are accepted one by one are those that the grammar derives. -/
theorem accepts_iff_derives (hrising : Rising n.columns) : n.Accepts ls ↔ n.Derives ls := by
  induction ls generalizing n with
  | nil => rw [accepts_nil, derives_nil]
  | cons l ls ih =>
    rw [accepts_cons, derives_cons hrising]
    refine exists_congr fun columns => and_congr_right fun henter => ?_
    obtain ⟨hrising', hhead⟩ := rising_of_enter? hrising henter
    obtain ⟨outer, rfl⟩ := List.head?_eq_some_iff.1 hhead
    rw [ih hrising', continues_cons_iff hrising']

/-- Read from the very left on, the accepted lines are one block, or none at all. -/
theorem initial_accepts_iff : initial.Accepts ls ↔ ls = [] ∨ Block 0 ls := by
  have hrising : Rising initial.columns := List.pairwise_singleton _ 0
  rw [accepts_iff_derives hrising, ← items_zero_iff]
  simp [Derives, initial, Continues]

end Nest

end Reparse.Layout
