/-!
The total of a list of numbers.
-/

namespace Reparse

/-- The total of a list of numbers. -/
def total (ns : List Nat) : Nat :=
  ns.foldl (fun m n => m + n) 0

theorem foldl_add_eq (m : Nat) (ns : List Nat) : ns.foldl (fun m n => m + n) m = m + total ns := by
  induction ns generalizing m with
  | nil => rfl
  | cons n ns ih =>
    unfold total
    rw [List.foldl_cons, List.foldl_cons, ih (m + n), ih (0 + n)]
    omega

@[simp]
theorem total_nil : total [] = 0 := rfl

@[simp]
theorem total_cons (n : Nat) (ns : List Nat) : total (n :: ns) = n + total ns := by
  unfold total
  rw [List.foldl_cons, foldl_add_eq]
  unfold total
  omega

@[simp]
theorem total_append (ms ns : List Nat) : total (ms ++ ns) = total ms + total ns := by
  induction ms with
  | nil => simp
  | cons m ms ih =>
    rw [List.cons_append, total_cons, total_cons, ih]
    omega

theorem le_total_of_mem {n : Nat} {ns : List Nat} (h : n ∈ ns) : n ≤ total ns := by
  induction ns with
  | nil => cases h
  | cons m ns ih =>
    rw [total_cons]
    rcases List.mem_cons.1 h with rfl | hmem
    · omega
    · have hle := ih hmem
      omega

theorem total_eq_zero {ns : List Nat} (h : ∀ n ∈ ns, n = 0) : total ns = 0 := by
  induction ns with
  | nil => rfl
  | cons m ns ih =>
    obtain ⟨hm, hns⟩ := List.forall_mem_cons.1 h
    rw [total_cons, hm, ih hns]

end Reparse
