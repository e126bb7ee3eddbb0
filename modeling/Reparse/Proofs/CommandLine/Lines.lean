import Reparse.CommandLine.Report
import Reparse.Proofs.Json.RoundTrip

/-!
Reports as lines. A line is read back as the report it was made from: it is the text of a value from
which every field of the report can be told, and no line feed stands in it.
-/

namespace Reparse

theorem Diagnostic.Source.label_injective : Function.Injective Diagnostic.Source.label := by
  rintro (_ | _) (_ | _) h
  · rfl
  · exact absurd h (by decide)
  · exact absurd h (by decide)
  · rfl

namespace CommandLine.Report

open Json (Proper)

/-! ## Well-formed values -/

theorem proper_text (s : String) : Proper (.text s) :=
  .text s

theorem proper_ofPosition (p : Position) : Proper (ofPosition p) :=
  .ofMembers (by simp [Proper.integer])

theorem proper_ofDiagnostic (d : Diagnostic) : Proper (ofDiagnostic d) := by
  have hrange : Proper (.ofMembers
      [("start", ofPosition d.range.start), ("end", ofPosition d.range.stop)]) :=
    .ofMembers (by simp [proper_ofPosition])
  exact .ofMembers (by simp [hrange, Proper.integer, proper_text])

theorem proper_of_mem_optional {α : Type} {toJson : α → Json} (h : ∀ a, Proper (toJson a))
    {key : String} {a : Option α} {m : String × Json} (hm : m ∈ optional key (a.map toJson)) :
    Proper m.2 := by
  cases a with
  | none => cases hm
  | some a =>
    rw [List.mem_singleton.1 hm]
    exact h a

theorem proper_toJson (r : Report) : Proper r.toJson := by
  have hdiagnostics : Proper (.array (r.diagnostics.map ofDiagnostic)) :=
    .array (List.forall_mem_map.2 fun d _ => proper_ofDiagnostic d)
  refine .ofMembers (List.forall_mem_append.2 ⟨List.forall_mem_cons.2 ⟨.text r.path, ?_⟩, ?_⟩)
  · refine List.forall_mem_append.2 ⟨fun _ => proper_of_mem_optional Proper.integer, ?_⟩
    simp [Proper.integer, hdiagnostics]
  · exact fun _ => proper_of_mem_optional Proper.text

/-! ## The fields of a report -/

theorem ofPosition_injective : Function.Injective ofPosition := by
  rintro ⟨line, column⟩ ⟨line', column'⟩ h
  simpa [ofPosition, Json.ofMembers_inj, Int.ofNat_inj] using h

theorem ofDiagnostic_injective : Function.Injective ofDiagnostic := by
  rintro ⟨⟨start, stop⟩, ⟨code⟩, source, message⟩ ⟨⟨start', stop'⟩, ⟨code'⟩, source', message'⟩ h
  simpa [ofDiagnostic, Json.ofMembers_inj, Json.text, ofPosition_injective.eq_iff,
    Diagnostic.Source.label_injective.eq_iff, and_assoc] using h

/-- A member that may be left out can be told from the members behind it. -/
theorem optional_append_inj {key : String} {v v' : Option Json} {rest rest' : List (String × Json)}
    (hrest : ∀ m ∈ rest.head?, m.1 ≠ key) (hrest' : ∀ m ∈ rest'.head?, m.1 ≠ key)
    (h : optional key v ++ rest = optional key v' ++ rest') : v = v' ∧ rest = rest' := by
  cases v with
  | none =>
    cases v' with
    | none => exact ⟨rfl, h⟩
    | some w' => exact absurd rfl (hrest (key, w') (congrArg List.head? h))
  | some w =>
    cases v' with
    | none => exact absurd rfl (hrest' (key, w) (congrArg List.head? h.symm))
    | some w' =>
      obtain ⟨hw, hrest⟩ := List.cons.inj h
      exact ⟨congrArg some (Prod.ext_iff.1 hw).2, hrest⟩

theorem toJson_eq (r : Report) : r.toJson = .ofMembers
    (("path", .text r.path) :: (optional "version" (r.version.map .integer) ++
      ("statements", .integer r.statements) ::
      ("diagnostics", .array (r.diagnostics.map ofDiagnostic)) ::
      (optional "error" (r.error.map .text) ++ []))) := by
  simp [toJson]

/-- Every field can be told from the value. -/
theorem toJson_injective : Function.Injective toJson := by
  intro r r' h
  rw [toJson_eq, toJson_eq, Json.ofMembers_inj] at h
  obtain ⟨hpath, h⟩ := List.cons.inj h
  obtain ⟨hversion, h⟩ := optional_append_inj (by simp) (by simp) h
  obtain ⟨hstatements, h⟩ := List.cons.inj h
  obtain ⟨hdiagnostics, h⟩ := List.cons.inj h
  obtain ⟨herror, -⟩ := optional_append_inj (by simp) (by simp) h
  have hinteger : Function.Injective Json.integer := fun _ _ => Json.integer.inj
  have htext : Function.Injective Json.text := fun _ _ h => Option.some.inj (Json.string.inj h)
  have hmap := List.map_injective_iff.2 ofDiagnostic_injective
  cases r
  cases r'
  congr
  · exact htext (Prod.ext_iff.1 hpath).2
  · exact Option.map_injective hinteger hversion
  · exact Int.ofNat_inj.1 (hinteger (Prod.ext_iff.1 hstatements).2)
  · exact hmap (Json.array.inj (Prod.ext_iff.1 hdiagnostics).2)
  · exact Option.map_injective htext herror

/-! ## Lines -/

/-- A line is read back as the value of its report. -/
theorem parse?_toLine (r : Report) : Json.parse? r.toLine.toList = some r.toJson :=
  r.proper_toJson.parse?_toText

/-- Different reports have different lines. -/
theorem toLine_injective : Function.Injective toLine := fun r r' h =>
  toJson_injective (r.proper_toJson.eq_of_toText r'.proper_toJson h)

/-- A line is a single one. -/
theorem lineFeed_not_mem_toLine (r : Report) : '\n' ∉ r.toLine.toList := by
  intro h
  rw [toLine, Json.toText, String.toList_ofList] at h
  exact absurd (r.proper_toJson.le_toNat_of_mem_render _ h) (by decide)

end CommandLine.Report

end Reparse
