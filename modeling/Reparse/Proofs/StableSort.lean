import Mathlib.Data.List.Forall2
import Mathlib.Data.List.Sort

/-!
Sorting in which equal elements keep their order. Such a sort puts an element behind those that it
does not precede and in front of all others. So it does not matter whether elements are left out
before or after it, and a list can be sorted in two stretches, the lower and the upper one, however
their elements are mixed; what lies between the two stretches goes between them.
-/

namespace Reparse

section StableSort

variable {α : Type} {le : α → α → Bool}

/-- A sorted list is cut in two by a property that passes on from each element to those after. -/
theorem filter_not_append_filter {q : α → Bool} (hq : ∀ a b, le a b → q a → q b) {l : List α}
    (h : l.Pairwise fun a b => le a b) : l.filter (fun b => !q b) ++ l.filter q = l := by
  induction l with
  | nil => rfl
  | cons a l ih =>
    obtain ⟨ha, hl⟩ := List.pairwise_cons.1 h
    cases hqa : q a with
    | false => simp [hqa, ih hl]
    | true =>
      have hall : ∀ b ∈ l, q b = true := fun b hb => hq a b (ha b hb) hqa
      have hnone : l.filter (fun b => !q b) = [] := by
        rw [List.filter_eq_nil_iff]
        intro b hb
        simp [hall b hb]
      simp [hqa, hnone, List.filter_eq_self.2 hall]

variable (htrans : ∀ a b c, le a b → le b c → le a c) (htotal : ∀ a b, le a b || le b a)

include htrans htotal

/-- The first element goes between those that it has to follow and those that it may precede. -/
theorem mergeSort_cons_eq (a : α) (l : List α) :
    (a :: l).mergeSort le =
      (l.mergeSort le).filter (fun b => !le a b) ++ a :: (l.mergeSort le).filter (le a) := by
  obtain ⟨before, after, hcons, hrest, hbefore⟩ := List.mergeSort_cons htrans htotal a l
  have hsorted := List.pairwise_mergeSort htrans htotal (a :: l)
  rw [hcons] at hsorted
  have hafter : ∀ b ∈ after, le a b = true :=
    (List.pairwise_cons.1 (List.pairwise_append.1 hsorted).2.1).1
  have hbefore' : before.filter (le a) = [] := by
    rw [List.filter_eq_nil_iff]
    intro b hb
    simpa using hbefore b hb
  have hafter' : after.filter (fun b => !le a b) = [] := by
    rw [List.filter_eq_nil_iff]
    intro b hb
    simpa using hafter b hb
  rw [hcons, hrest, List.filter_append, List.filter_append, hbefore', hafter',
    List.filter_eq_self.2 hbefore, List.filter_eq_self.2 hafter, List.append_nil, List.nil_append]

/-- Lists whose elements are related one by one, in a way that keeps the order, are related so also
when they are sorted. -/
theorem forall₂_mergeSort {R : α → α → Prop}
    (hR : ∀ a b a' b', R a a' → R b b' → le a b = le a' b') {l l' : List α}
    (h : List.Forall₂ R l l') : List.Forall₂ R (l.mergeSort le) (l'.mergeSort le) := by
  induction h with
  | nil => simp
  | @cons a a' l l' ha _ ih =>
    rw [mergeSort_cons_eq htrans htotal, mergeSort_cons_eq htrans htotal]
    refine List.rel_append (List.rel_filter ?_ ih) (.cons ha (List.rel_filter ?_ ih)) <;>
      intro b b' hb <;> simp only [hR a b a' b' ha hb]

/-- Leaving elements out of the sorted list is sorting what is left. -/
theorem filter_mergeSort (p : α → Bool) (l : List α) :
    (l.mergeSort le).filter p = (l.filter p).mergeSort le := by
  induction l with
  | nil => simp
  | cons a l ih =>
    have hcomm : ∀ q : α → Bool, ((l.mergeSort le).filter q).filter p =
        ((l.filter p).mergeSort le).filter q := by
      intro q
      rw [List.filter_comm, ih]
    rw [mergeSort_cons_eq htrans htotal, List.filter_append, List.filter_cons, hcomm, hcomm]
    cases hp : p a with
    | true => rw [List.filter_cons_of_pos hp, mergeSort_cons_eq htrans htotal, if_pos rfl]
    | false =>
      have hcut := filter_not_append_filter (q := le a) (fun b c hbc hab => htrans a b c hab hbc)
        (List.pairwise_mergeSort htrans htotal (l.filter p))
      rw [List.filter_cons_of_neg (by simp [hp]), if_neg Bool.false_ne_true, hcut]

/-- A lower and an upper stretch of the order can be sorted apart. -/
theorem mergeSort_eq_append {q : α → Bool} (hq : ∀ a b, le a b → q a → q b) (l : List α) :
    l.mergeSort le = (l.filter fun b => !q b).mergeSort le ++ (l.filter q).mergeSort le := by
  rw [← filter_mergeSort htrans htotal, ← filter_mergeSort htrans htotal,
    filter_not_append_filter hq (List.pairwise_mergeSort htrans htotal l)]

/-- Whatever is upper can be taken out of the middle of the lower. -/
theorem mergeSort_interleave {q : α → Bool} (hq : ∀ a b, le a b → q a → q b)
    {low low' high high' : List α} (hlow : ∀ a ∈ low ++ low', q a = false)
    (hhigh : ∀ a ∈ high ++ high', q a = true) :
    (low ++ (high ++ (low' ++ high'))).mergeSort le =
      (low ++ low').mergeSort le ++ (high ++ high').mergeSort le := by
  have hkeep : ∀ {p : α → Bool} {l l' : List α}, (∀ a ∈ l ++ l', p a = true) →
      l.filter p = l ∧ l'.filter p = l' := by
    intro p l l' h
    exact ⟨List.filter_eq_self.2 fun a ha => h a (List.mem_append_left _ ha),
      List.filter_eq_self.2 fun a ha => h a (List.mem_append_right _ ha)⟩
  have hdrop : ∀ {p : α → Bool} {l l' : List α}, (∀ a ∈ l ++ l', p a = false) →
      l.filter p = [] ∧ l'.filter p = [] := by
    intro p l l' h
    simpa [List.filter_eq_nil_iff, or_imp, forall_and] using h
  have hlow' : ∀ a ∈ low ++ low', (!q a) = true := fun a ha => by simp [hlow a ha]
  have hhigh' : ∀ a ∈ high ++ high', (!q a) = false := fun a ha => by simp [hhigh a ha]
  obtain ⟨hlow₁, hlow₂⟩ := hdrop hlow
  obtain ⟨hhigh₁, hhigh₂⟩ := hkeep hhigh
  obtain ⟨hlow₃, hlow₄⟩ := hkeep (p := fun a => !q a) hlow'
  obtain ⟨hhigh₃, hhigh₄⟩ := hdrop (p := fun a => !q a) hhigh'
  rw [mergeSort_eq_append htrans htotal hq]
  simp only [List.filter_append, hlow₁, hlow₂, hhigh₁, hhigh₂, hlow₃, hlow₄, hhigh₃, hhigh₄,
    List.nil_append, List.append_nil]

/-- What lies between two stretches of the order goes between them, wherever it is put in. -/
theorem mergeSort_between {q q' : α → Bool} (hq : ∀ a b, le a b → q a → q b)
    (hq' : ∀ a b, le a b → q' a → q' b) {l mid l' : List α}
    (hmid : ∀ a ∈ mid, q a = true ∧ q' a = false) (hrest : ∀ a ∈ l ++ l', q a = q' a) :
    (l ++ (mid ++ l')).mergeSort le =
      ((l ++ l').mergeSort le).filter (fun a => !q a) ++
        (mid.mergeSort le ++ ((l ++ l').mergeSort le).filter q) := by
  have hlow : (l ++ (mid ++ l')).filter (fun a => !q a) = (l ++ l').filter fun a => !q a := by
    have hnone : mid.filter (fun a => !q a) = [] := by
      rw [List.filter_eq_nil_iff]
      intro a ha
      simp [(hmid a ha).1]
    rw [List.filter_append, List.filter_append, hnone, List.nil_append, List.filter_append]
  -- Above the lower stretch, the second property parts what is put in from the upper stretch.
  have hsame : ∀ p : List α, (∀ a ∈ p, q a = q' a) →
      (p.filter q).filter (fun a => !q' a) = [] ∧ (p.filter q).filter q' = p.filter q := by
    intro p hp
    rw [List.filter_eq_nil_iff, List.filter_eq_self]
    refine ⟨?_, ?_⟩ <;> intro a ha <;> obtain ⟨ha, hqa⟩ := List.mem_filter.1 ha <;>
      simp [← hp a ha, hqa]
  obtain ⟨hl, hl'⟩ := List.forall_mem_append.1 hrest
  have hkeep : mid.filter q = mid := List.filter_eq_self.2 fun a ha => (hmid a ha).1
  have hbetween : mid.filter (fun a => !q' a) = mid := by
    rw [List.filter_eq_self]
    intro a ha
    simp [(hmid a ha).2]
  have hbelow : mid.filter q' = [] := by
    rw [List.filter_eq_nil_iff]
    intro a ha
    simp [(hmid a ha).2]
  have hmiddle : ((l ++ (mid ++ l')).filter q).filter (fun a => !q' a) = mid := by
    simp only [List.filter_append, hkeep, (hsame l hl).1, (hsame l' hl').1, hbetween,
      List.nil_append, List.append_nil]
  have hhigh : ((l ++ (mid ++ l')).filter q).filter q' = (l ++ l').filter q := by
    simp only [List.filter_append, hkeep, (hsame l hl).2, (hsame l' hl').2, hbelow,
      List.nil_append]
  rw [mergeSort_eq_append htrans htotal hq, hlow,
    mergeSort_eq_append htrans htotal hq' (List.filter q _), hmiddle, hhigh,
    filter_mergeSort htrans htotal, filter_mergeSort htrans htotal]

end StableSort

end Reparse
