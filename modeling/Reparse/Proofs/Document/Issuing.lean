import Reparse.Proofs.Schedule.Step
import Reparse.Receipt

/-!
The versions that a part is given. Of each index it is enough to know the highest version so far:
the next one that is issued is above it, whatever edits have come between, until the highest version
of all has been given. From then on that version is issued for every new content, and a record of
the content before passes for a record of the content after.
-/

namespace Reparse

namespace Buffers

/-- The parts after edits, made one after the other. -/
def after (b : Buffers) (edits : List Edit) : Buffers :=
  edits.foldl Edit.apply b

/-- The version that an edit gives to a part, be it issued or set from outside. -/
def Edit.given? (b : Buffers) (part : Nat) : Edit → Option Int
  | set q content => if q = part then some (b.set q content).2 else none
  | setVersion q _ version => if q = part then some version else none
  | markUnavailable _ => none
  | remove _ => none

/-- The versions that edits give to a part, oldest first. -/
def given (part : Nat) (b : Buffers) : List Edit → List Int
  | [] => []
  | e :: edits => (e.given? b part).toList ++ given part (e.apply b) edits

/-- A version that is set from outside is a version, so it is not above the highest one. -/
def Edit.InRange : Edit → Prop
  | setVersion _ _ version => version ≤ maxVersion
  | _ => True

/-- The highest version issued for a part is the highest one that it has been given, or zero. -/
structure Issued (part : Nat) (b : Buffers) (versions : List Int) : Prop where
  nonneg : 0 ≤ b.lastIssued part
  inRange : b.lastIssued part ≤ maxVersion
  highest : ∀ v ∈ versions, v ≤ b.lastIssued part
  attained : b.lastIssued part = 0 ∨ b.lastIssued part ∈ versions

theorem issued_empty (part : Nat) : Issued part empty [] :=
  ⟨Int.le_refl 0, (by decide : (0 : Int) ≤ maxVersion), nofun, .inl rfl⟩

/-- An edit that gives the part no version leaves the highest version as it is; one that does takes
the higher of the two, and zero counts in any case. -/
theorem lastIssued_apply {b : Buffers} {part : Nat} (hnonneg : 0 ≤ b.lastIssued part)
    (hinRange : b.lastIssued part ≤ maxVersion) (e : Edit) :
    (e.apply b).lastIssued part = max (b.lastIssued part) ((e.given? b part).getD 0) := by
  have hother : ∀ {q : Nat} {v : Int}, q ≠ part →
      ((b.issued.insert q v).get? part).getD 0 = b.lastIssued part := by
    intro q v hq
    rw [NatMap.get?_insert_of_ne (Ne.symm hq)]
    rfl
  cases e with
  | set q content =>
    by_cases hq : q = part
    · subst hq
      have hnext : b.lastIssued q ≤ nextVersion (b.lastIssued q) := by
        unfold nextVersion
        omega
      simp only [Edit.apply, Edit.given?, set, lastIssued, NatMap.get?_insert_self, if_true,
        Option.getD_some] at hnext ⊢
      omega
    · simp only [Edit.apply, Edit.given?, hq, if_false, Option.getD_none]
      exact (hother hq).trans (by omega)
  | setVersion q content v =>
    by_cases hq : q = part
    · subst hq
      simp only [Edit.apply, Edit.given?, setVersion, if_true, Option.getD_some]
      by_cases hv : v < 0
      · simp only [lastIssued, hv, if_true] at hnonneg ⊢
        omega
      · simp only [lastIssued, hv, if_false, NatMap.get?_insert_self, Option.getD_some]
    · simp only [Edit.apply, Edit.given?, setVersion, hq, if_false, Option.getD_none]
      by_cases hv : v < 0
      · simp only [lastIssued, hv, if_true] at hnonneg ⊢
        omega
      · simp only [hv, if_false]
        exact (hother hq).trans (by omega)
  | markUnavailable q =>
    exact (Int.max_eq_left hnonneg).symm
  | remove q =>
    exact (Int.max_eq_left hnonneg).symm

/-- What is issued is in range, and so is what is set from outside. -/
theorem Edit.given?_le {b : Buffers} {part : Nat} {e : Edit} (he : e.InRange) {v : Int}
    (hv : e.given? b part = some v) : v ≤ maxVersion := by
  cases e with
  | set q content =>
    simp only [given?, Option.ite_none_right_eq_some, Option.some.injEq] at hv
    obtain ⟨-, rfl⟩ := hv
    exact Int.min_le_right _ _
  | setVersion q content version =>
    simp only [given?, Option.ite_none_right_eq_some, Option.some.injEq] at hv
    obtain ⟨-, rfl⟩ := hv
    exact he
  | markUnavailable q => cases hv
  | remove q => cases hv

theorem Issued.apply {part : Nat} {b : Buffers} {versions : List Int}
    (h : Issued part b versions) {e : Edit} (he : e.InRange) :
    Issued part (e.apply b) (versions ++ (e.given? b part).toList) := by
  have hlast := lastIssued_apply h.nonneg h.inRange e
  cases hgiven : e.given? b part with
  | none =>
    rw [hgiven, Option.getD_none, Int.max_eq_left h.nonneg] at hlast
    rw [Option.toList_none, List.append_nil]
    exact ⟨hlast ▸ h.nonneg, hlast ▸ h.inRange, hlast ▸ h.highest, hlast ▸ h.attained⟩
  | some v =>
    have hv := Edit.given?_le he hgiven
    have hnonneg := h.nonneg
    have hinRange := h.inRange
    rw [hgiven, Option.getD_some] at hlast
    refine ⟨by omega, by omega, ?_, ?_⟩
    · intro u hu
      rcases List.mem_append.1 hu with hu | hu
      · have hle := h.highest u hu
        omega
      · obtain rfl : u = v := by simpa using hu
        omega
    · rw [hlast]
      rcases Int.le_total v (b.lastIssued part) with hle | hle
      · rw [Int.max_eq_left hle]
        exact h.attained.imp_right (List.mem_append_left _)
      · rw [Int.max_eq_right hle]
        exact .inr (List.mem_append_right _ (by simp))

theorem Issued.after {part : Nat} {b : Buffers} {versions : List Int}
    (h : Issued part b versions) {edits : List Edit} (hedits : ∀ e ∈ edits, e.InRange) :
    Issued part (b.after edits) (versions ++ given part b edits) := by
  induction edits generalizing b versions with
  | nil =>
    rw [given, List.append_nil]
    exact h
  | cons e edits ih =>
    obtain ⟨he, hedits⟩ := List.forall_mem_cons.1 hedits
    rw [given, ← List.append_assoc]
    exact ih (h.apply he) hedits

/-- The next version to be issued is above all that have been given, unless the highest version of
all is among them. -/
theorem Issued.exceeds_iff {part : Nat} {b : Buffers} {versions : List Int}
    (h : Issued part b versions) :
    (∀ u ∈ versions, 0 ≤ u → u < nextVersion (b.lastIssued part)) ↔ maxVersion ∉ versions := by
  have hnonneg := h.nonneg
  have hinRange := h.inRange
  constructor
  · intro hexceeds hmax
    have hlt := hexceeds maxVersion hmax (by decide)
    unfold nextVersion at hlt
    omega
  · intro hmax u hu _
    have hle := h.highest u hu
    have hne : b.lastIssued part ≠ maxVersion := by
      intro heq
      rcases h.attained with hzero | hmem
      · exact absurd (hzero.symm.trans heq) (by decide)
      · exact hmax (heq ▸ hmem)
    unfold nextVersion
    omega

end Buffers

open Buffers

/-- The records of a receipt were made of content that the part had before, so each has a version
that the part was given. -/
def Receipt.IsOf (r : Receipt) (part : Nat) (versions : List Int) : Prop :=
  ∀ record, r.get? part = some record → record.version ∈ versions

/-- A receipt with one record, which is of the highest version of all. -/
def Receipt.newestOf (part : Nat) : Receipt :=
  ⟨.project (NatMap.empty.insert part ⟨maxVersion, .empty, [], 0⟩), 0⟩

theorem Receipt.get?_newestOf (part : Nat) :
    (newestOf part).get? part = some ⟨maxVersion, .empty, [], 0⟩ :=
  NatMap.get?_insert_self _ _ _

/-- After any edits, new content of a part gets the version after the highest one that the part was
given, or the highest version of all. It is above every version the part was given that is not
negative exactly if the part was not given the highest version of all, and exactly then no record of
content that the part had before is used for it. -/
theorem set_exceeds_given_iff (part : Nat) (content : ByteArray) (edits : List Edit)
    (hedits : ∀ e ∈ edits, e.InRange) :
    (((Buffers.empty.after edits).set part content).1.read? part =
        some (content, ((Buffers.empty.after edits).set part content).2)) ∧
      ((∀ u ∈ given part .empty edits, 0 ≤ u →
          u < ((Buffers.empty.after edits).set part content).2) ↔
        maxVersion ∉ given part .empty edits) ∧
      ((∀ r : Receipt, r.IsOf part (given part .empty edits) →
          r.reusable? part ((Buffers.empty.after edits).set part content).2 = none) ↔
        maxVersion ∉ given part .empty edits) ∧
      ∃ highest, (highest = 0 ∨ highest ∈ given part .empty edits) ∧ 0 ≤ highest ∧
        (∀ u ∈ given part .empty edits, u ≤ highest) ∧
        ((Buffers.empty.after edits).set part content).2 = nextVersion highest := by
  have hissued : Issued part (Buffers.empty.after edits) (given part .empty edits) :=
    (issued_empty part).after hedits
  have hexceeds := hissued.exceeds_iff
  have hnonneg := hissued.nonneg
  have hinRange := hissued.inRange
  have hset : ((Buffers.empty.after edits).set part content).2 =
      nextVersion ((Buffers.empty.after edits).lastIssued part) := rfl
  have hpos : 0 < nextVersion ((Buffers.empty.after edits).lastIssued part) := by
    unfold nextVersion maxVersion
    omega
  refine ⟨read?_set _ _ _, hexceeds, ?_, ?_⟩
  · rw [hset]
    constructor
    · intro hnone hmax
      have hof : (Receipt.newestOf part).IsOf part (given part .empty edits) := by
        intro record hrecord
        rw [Receipt.get?_newestOf] at hrecord
        cases hrecord
        exact hmax
      have hsome : (Receipt.newestOf part).reusable? part
          (nextVersion ((Buffers.empty.after edits).lastIssued part)) =
            some ⟨maxVersion, .empty, [], 0⟩ :=
        Receipt.reusable?_eq_some_iff.2
          ⟨Int.le_of_lt hpos, Receipt.get?_newestOf part, Int.min_le_right _ _⟩
      rw [hnone _ hof] at hsome
      cases hsome
    · intro hmax r hof
      rw [Option.eq_none_iff_forall_ne_some]
      intro record hrecord
      obtain ⟨-, hget, hle⟩ := Receipt.reusable?_eq_some_iff.1 hrecord
      have hlt := hexceeds.2 hmax record.version (hof record hget) (by omega)
      omega
  · exact ⟨_, hissued.attained, hnonneg, hissued.highest, hset⟩

/-- A part whose versions were issued, set from outside above and below, and unknown, and that was
removed in between. -/
def restoredPart : List Edit :=
  [.set 1 "a = 1".toUTF8, .setVersion 1 "a = 2".toUTF8 10, .remove 1, .setVersion 1 "a = 3".toUTF8 4,
    .markUnavailable 1, .setVersion 1 "a = 4".toUTF8 (-1)]

theorem restoredPart_exceeds :
    (∀ e ∈ restoredPart, e.InRange) ∧ given 1 .empty restoredPart = [1, 10, 4, -1] ∧
      ((Buffers.empty.after restoredPart).set 1 "a = 5".toUTF8).2 = 11 ∧
      (∀ u ∈ given 1 .empty restoredPart, 0 ≤ u →
        u < ((Buffers.empty.after restoredPart).set 1 "a = 5".toUTF8).2) ∧
      ∀ r : Receipt, r.IsOf 1 (given 1 .empty restoredPart) →
        r.reusable? 1 ((Buffers.empty.after restoredPart).set 1 "a = 5".toUTF8).2 = none := by
  have hrange : ∀ e ∈ restoredPart, e.InRange := by
    simp [restoredPart, Edit.InRange, maxVersion]
  have hgiven : given 1 .empty restoredPart = [1, 10, 4, -1] := rfl
  have hmax : maxVersion ∉ given 1 .empty restoredPart := by
    rw [hgiven]
    decide
  obtain ⟨-, hexceeds, hnone, -⟩ := set_exceeds_given_iff 1 "a = 5".toUTF8 restoredPart hrange
  exact ⟨hrange, hgiven, rfl, hexceeds.2 hmax, hnone.2 hmax⟩

/-- The highest version of all, set from outside, is issued again for the next content, and the
record of the content before is used for it. -/
theorem not_forall_set_exceeds :
    ¬∀ (part : Nat) (content : ByteArray) (edits : List Edit), (∀ e ∈ edits, e.InRange) →
      (∀ u ∈ given part .empty edits, 0 ≤ u →
          u < ((Buffers.empty.after edits).set part content).2) ∧
        ∀ r : Receipt, r.IsOf part (given part .empty edits) →
          r.reusable? part ((Buffers.empty.after edits).set part content).2 = none := by
  intro h
  have hrange : ∀ e ∈ [Edit.setVersion 0 "x = 1".toUTF8 maxVersion], e.InRange := by
    simp [Edit.InRange]
  have hexceeds := (h 0 "y = 2".toUTF8 _ hrange).1 maxVersion (by decide) (by decide)
  exact absurd hexceeds (by decide)

end Reparse
