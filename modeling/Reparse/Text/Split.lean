/-!
Cutting a text at its first occurrence of a separator. The law says that the two pieces and the
separator are the text again, so nothing is lost.
-/

namespace Reparse.Text

/-- The text after a beginning that is given, if it begins so. -/
def dropBeginning? : List Char → List Char → Option (List Char)
  | [], cs => some cs
  | _ :: _, [] => none
  | p :: ps, c :: cs => if p = c then dropBeginning? ps cs else none

theorem dropBeginning?_eq_some_iff {pat cs rest : List Char} :
    dropBeginning? pat cs = some rest ↔ cs = pat ++ rest := by
  induction pat generalizing cs with
  | nil => simp [dropBeginning?]
  | cons p ps ih =>
    cases cs with
    | nil => simp [dropBeginning?]
    | cons c cs =>
      by_cases h : p = c
      · simp [dropBeginning?, h, ih]
      · simp [dropBeginning?, h, Ne.symm h]

/-- Looks for the separator from here on; `before` is what has been passed, newest first. -/
def splitFrom (sep before : List Char) : List Char → Option (List Char × List Char)
  | [] => if sep.isEmpty then some (before.reverse, []) else none
  | c :: cs =>
    match dropBeginning? sep (c :: cs) with
    | some rest => some (before.reverse, rest)
    | none => splitFrom sep (c :: before) cs

/-- What stands before and after the first occurrence of the separator. -/
def splitOnce (sep cs : List Char) : Option (List Char × List Char) :=
  splitFrom sep [] cs

theorem append_of_splitFrom {sep before cs l r : List Char}
    (h : splitFrom sep before cs = some (l, r)) : before.reverse ++ cs = l ++ sep ++ r := by
  induction cs generalizing before with
  | nil =>
    cases sep <;> simp_all [splitFrom]
  | cons c cs ih =>
    rw [splitFrom] at h
    split at h
    · rename_i rest hrest
      obtain ⟨rfl, rfl⟩ : before.reverse = l ∧ rest = r := by simpa using h
      rw [dropBeginning?_eq_some_iff.1 hrest, List.append_assoc]
    · simpa using ih h

theorem append_of_splitOnce {sep cs l r : List Char} (h : splitOnce sep cs = some (l, r)) :
    cs = l ++ sep ++ r := by
  simpa using append_of_splitFrom h

end Reparse.Text
