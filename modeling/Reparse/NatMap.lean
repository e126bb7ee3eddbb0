/-!
Finite maps from natural numbers. The entries are kept in the ascending order of their keys, so a
map has one form only, and walking through it meets the keys in order.
-/

namespace Reparse

/-- A finite map from natural numbers. -/
structure NatMap (α : Type) where
  entries : List (Nat × α)
  ascending : entries.Pairwise (fun a b => a.1 < b.1)

namespace NatMap

variable {α : Type}

/-- The map without entries. -/
def empty : NatMap α := ⟨[], .nil⟩

instance : Inhabited (NatMap α) := ⟨empty⟩

def isEmpty (m : NatMap α) : Bool :=
  m.entries.isEmpty

def size (m : NatMap α) : Nat :=
  m.entries.length

/-- The keys, ascending. -/
def keys (m : NatMap α) : List Nat :=
  m.entries.map Prod.fst

/-- The values, in the order of their keys. -/
def values (m : NatMap α) : List α :=
  m.entries.map Prod.snd

/-- The value at a key. -/
def get? (m : NatMap α) (k : Nat) : Option α :=
  m.entries.lookup k

def contains (m : NatMap α) (k : Nat) : Bool :=
  (m.get? k).isSome

/-- Puts an entry in its place in an ascending list, instead of one with the same key. -/
def place (k : Nat) (a : α) : List (Nat × α) → List (Nat × α)
  | [] => [(k, a)]
  | (j, b) :: rest =>
    if k < j then (k, a) :: (j, b) :: rest
    else if k = j then (k, a) :: rest
    else (j, b) :: place k a rest

theorem mem_place {k : Nat} {a : α} {es : List (Nat × α)} {e : Nat × α} (h : e ∈ place k a es) :
    e = (k, a) ∨ e ∈ es := by
  induction es with
  | nil => simpa [place] using h
  | cons d es ih =>
    obtain ⟨j, b⟩ := d
    rw [place] at h
    split at h
    · simpa using h
    split at h
    · rcases List.mem_cons.1 h with h | h
      · exact .inl h
      · exact .inr (.tail _ h)
    · rcases List.mem_cons.1 h with h | h
      · exact .inr (h ▸ .head _)
      · exact (ih h).imp id (.tail _)

theorem ascending_place (k : Nat) (a : α) {es : List (Nat × α)}
    (h : es.Pairwise (fun a b => a.1 < b.1)) : (place k a es).Pairwise (fun a b => a.1 < b.1) := by
  induction es with
  | nil => simp [place]
  | cons d es ih =>
    obtain ⟨j, b⟩ := d
    obtain ⟨hj, hes⟩ := List.pairwise_cons.1 h
    rw [place]
    split
    · rename_i hlt
      refine List.pairwise_cons.2 ⟨fun e he => ?_, h⟩
      rcases List.mem_cons.1 he with rfl | he
      · exact hlt
      · exact Nat.lt_trans hlt (hj e he)
    split
    · rename_i _ heq
      subst heq
      exact List.pairwise_cons.2 ⟨hj, hes⟩
    · refine List.pairwise_cons.2 ⟨fun e he => ?_, ih hes⟩
      rcases mem_place he with rfl | he
      · show j < k
        omega
      · exact hj e he

/-- The map with one entry more, or with a new value at its key. -/
def insert (m : NatMap α) (k : Nat) (a : α) : NatMap α :=
  ⟨place k a m.entries, ascending_place k a m.ascending⟩

/-- The map without a key. -/
def erase (m : NatMap α) (k : Nat) : NatMap α :=
  ⟨m.entries.filter (·.1 != k), m.ascending.sublist List.filter_sublist⟩

/-- The map with another value at a key, if it has the key. -/
def modify (m : NatMap α) (k : Nat) (f : α → α) : NatMap α :=
  match m.get? k with
  | some a => m.insert k (f a)
  | none => m

/-- The map with the same keys and other values. -/
def mapValues (m : NatMap α) {β : Type} (f : Nat → α → β) : NatMap β :=
  ⟨m.entries.map fun e => (e.1, f e.1 e.2), by
    rw [List.pairwise_map]
    exact m.ascending⟩

@[simp]
theorem get?_empty (k : Nat) : (empty : NatMap α).get? k = none := rfl

theorem lookup_place_self (k : Nat) (a : α) (es : List (Nat × α)) :
    (place k a es).lookup k = some a := by
  induction es with
  | nil => simp [place]
  | cons d es ih =>
    obtain ⟨j, b⟩ := d
    rw [place]
    split
    · simp
    split
    · simp
    · rename_i _ hne
      have : (k == j) = false := by simpa using hne
      simp [List.lookup_cons, this, ih]

theorem lookup_place_of_ne {k i : Nat} (h : i ≠ k) (a : α) (es : List (Nat × α)) :
    (place k a es).lookup i = es.lookup i := by
  have hik : (i == k) = false := by simpa using h
  induction es with
  | nil => simp [place, List.lookup_cons, hik]
  | cons d es ih =>
    obtain ⟨j, b⟩ := d
    rw [place]
    split
    · simp [List.lookup_cons, hik]
    split
    · rename_i _ heq
      subst heq
      simp [List.lookup_cons, hik]
    · simp [List.lookup_cons, ih]

@[simp]
theorem get?_insert_self (m : NatMap α) (k : Nat) (a : α) : (m.insert k a).get? k = some a :=
  lookup_place_self k a m.entries

theorem get?_insert_of_ne {k i : Nat} (h : i ≠ k) (m : NatMap α) (a : α) :
    (m.insert k a).get? i = m.get? i :=
  lookup_place_of_ne h a m.entries

theorem get?_modify_of_ne {k i : Nat} (h : i ≠ k) (m : NatMap α) (f : α → α) :
    (m.modify k f).get? i = m.get? i := by
  rw [modify]
  split
  · exact get?_insert_of_ne h m _
  · rfl

theorem get?_modify_self (m : NatMap α) (k : Nat) (f : α → α) :
    (m.modify k f).get? k = (m.get? k).map f := by
  rw [modify]
  split
  · rename_i a h
    simp [h]
  · rename_i h
    simp [h]

theorem get?_insert (m : NatMap α) (k i : Nat) (a : α) :
    (m.insert k a).get? i = if i = k then some a else m.get? i := by
  split
  · rename_i h
    rw [h, get?_insert_self]
  · rename_i h
    rw [get?_insert_of_ne h]

theorem get?_modify (m : NatMap α) (k i : Nat) (f : α → α) :
    (m.modify k f).get? i = if i = k then (m.get? i).map f else m.get? i := by
  split
  · rename_i h
    rw [h, get?_modify_self]
  · rename_i h
    rw [get?_modify_of_ne h]

theorem get?_eq_some_iff {m : NatMap α} {k : Nat} {a : α} :
    m.get? k = some a ↔ (k, a) ∈ m.entries := by
  obtain ⟨es, h⟩ := m
  simp only [get?]
  induction es with
  | nil => simp
  | cons e es ih =>
    obtain ⟨j, b⟩ := e
    obtain ⟨hj, hes⟩ := List.pairwise_cons.1 h
    rw [List.lookup_cons, List.mem_cons]
    by_cases hk : k = j
    · subst hk
      have hout : (k, a) ∉ es := fun hmem => Nat.lt_irrefl k (hj _ hmem)
      simp [hout, eq_comm]
    · have hbeq : (k == j) = false := by simpa using hk
      simp [hbeq, hk, ih hes]

/-- A map is its values. -/
theorem ext_of_get? {m n : NatMap α} (h : ∀ k, m.get? k = n.get? k) : m = n := by
  have nodup : ∀ m : NatMap α, m.entries.Nodup := by
    intro m
    refine m.ascending.imp ?_
    intro a b hlt heq
    rw [heq] at hlt
    exact Nat.lt_irrefl _ hlt
  have hmem : ∀ e, e ∈ m.entries ↔ e ∈ n.entries := by
    intro ⟨k, a⟩
    rw [← get?_eq_some_iff, ← get?_eq_some_iff, h]
  have hperm := (List.perm_ext_iff_of_nodup (nodup m) (nodup n)).2 hmem
  have heq : m.entries = n.entries :=
    hperm.eq_of_pairwise (fun _ _ _ _ hab hba => absurd hab (Nat.lt_asymm hba))
      m.ascending n.ascending
  cases m
  cases n
  cases heq
  rfl

theorem get?_eq_none_iff {m : NatMap α} {k : Nat} : m.get? k = none ↔ k ∉ m.keys := by
  constructor
  · intro h hmem
    obtain ⟨⟨j, a⟩, he, rfl⟩ := List.mem_map.1 hmem
    rw [get?_eq_some_iff.2 he] at h
    cases h
  · intro h
    cases hg : m.get? k with
    | none => rfl
    | some a => exact absurd (List.mem_map.2 ⟨_, get?_eq_some_iff.1 hg, rfl⟩) h

theorem keys_ascending (m : NatMap α) : m.keys.Pairwise (· < ·) :=
  List.pairwise_map.2 m.ascending

@[simp]
theorem get?_erase_self (m : NatMap α) (k : Nat) : (m.erase k).get? k = none := by
  rw [get?_eq_none_iff]
  simp [keys, erase]

theorem get?_erase_of_ne {k i : Nat} (h : i ≠ k) (m : NatMap α) :
    (m.erase k).get? i = m.get? i := by
  have key : ∀ a, (m.erase k).get? i = some a ↔ m.get? i = some a := by
    intro a
    rw [get?_eq_some_iff, get?_eq_some_iff]
    simp [erase, h]
  exact Option.ext key

/-- There is nothing at a key below all others. -/
theorem lookup_eq_none_of_lt {k j : Nat} {b : α} {es : List (Nat × α)}
    (h : ((j, b) :: es).Pairwise fun a b => a.1 < b.1) (hlt : k < j) :
    ((j, b) :: es).lookup k = none := by
  obtain ⟨hj, -⟩ := List.pairwise_cons.1 h
  rw [List.lookup_eq_none_iff]
  intro e he
  rw [bne_iff_ne]
  rcases List.mem_cons.1 he with rfl | he
  · exact Nat.ne_of_lt hlt
  · exact Nat.ne_of_lt (Nat.lt_trans hlt (hj e he))

theorem keys_place_of_lookup {k : Nat} (a : α) {es : List (Nat × α)}
    (h : es.Pairwise fun a b => a.1 < b.1) (hk : (es.lookup k).isSome = true) :
    (place k a es).map Prod.fst = es.map Prod.fst := by
  induction es with
  | nil => cases hk
  | cons d es ih =>
    obtain ⟨j, b⟩ := d
    rw [place]
    split
    · rename_i hlt
      rw [lookup_eq_none_of_lt h hlt] at hk
      cases hk
    split
    · rename_i _ heq
      rw [heq]
      rfl
    · rename_i _ hne
      have hbeq : (k == j) = false := by simpa using hne
      rw [List.lookup_cons, hbeq] at hk
      rw [List.map_cons, List.map_cons, ih (List.pairwise_cons.1 h).2 hk]

/-- A new value at a key that is there leaves the keys. -/
theorem keys_insert_of_get? {m : NatMap α} {k : Nat} (h : (m.get? k).isSome = true) (a : α) :
    (m.insert k a).keys = m.keys :=
  keys_place_of_lookup a m.ascending h

theorem get?_mapValues {β : Type} (m : NatMap α) (f : Nat → α → β) (k : Nat) :
    (m.mapValues f).get? k = (m.get? k).map (f k) := by
  obtain ⟨es, h⟩ := m
  simp only [get?, mapValues]
  clear h
  induction es with
  | nil => rfl
  | cons e es ih =>
    obtain ⟨j, b⟩ := e
    simp only [List.map_cons, List.lookup_cons]
    by_cases hk : k = j
    · subst hk
      simp
    · have : (k == j) = false := by simpa using hk
      simp [this, ih]

end NatMap

end Reparse
