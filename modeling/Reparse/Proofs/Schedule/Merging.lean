import Reparse.Proofs.Schedule.PartNumbers

/-!
The installed outline is the merge of the outlines that the records of its receipt hold. A receipt
of a single part installs that part's outline as it is; the merge of one outline is the outline
itself only if it is one part and numbers its statements from zero, which is so for every outline
that a parse gives and hence for every record, whichever request it was made for.
-/

namespace Reparse

namespace Outline

/-- A merge of one outline of one part is the outline. -/
theorem merge_singleton {o : Outline} (hparts : o.parts = 1) (h : ∀ s ∈ o.statements, s.part = 0) :
    merge [o] = o := by
  have hstatements : (merge [o]).statements = o.statements := by
    simpa [merge] using stamp_zero h
  calc merge [o] = ⟨(merge [o]).statements, 1⟩ := rfl
    _ = ⟨o.statements, o.parts⟩ := by rw [hstatements, hparts]

/-- But for the numbers of the parts, the statements of a merge are those of the outlines. -/
theorem unnumbered_statements_merge (os : List Outline) :
    ((merge os).statements.map fun s => { s with part := 0 }) = os.flatMap (stamp 0) := by
  have hstamp : ∀ (o : Outline) (place : Nat),
      ((o.stamp place).map fun s => { s with part := 0 }) = o.stamp 0 := by
    intro o place
    simp [stamp]
  have hzip := List.flatMap_map (l := os.zipIdx) Prod.fst (stamp 0)
  rw [List.zipIdx_map_fst] at hzip
  rw [hzip, merge, List.map_flatMap]
  simp only [hstamp]

end Outline

/-- A parse gives an outline of one part. -/
theorem isPart_parse (content : ByteArray) (options : Options) :
    (parse content options).outline.parts = 1 ∧
      ∀ s ∈ (parse content options).outline.statements, s.part = 0 :=
  ⟨rfl, fun _ => part_of_mem_parse⟩

/-- The outline of a receipt is a merge, also where it has a single record. -/
theorem Receipt.outline?_eq_merge {r : Receipt}
    (hpart : ∀ part record, r.get? part = some record →
      record.outline.parts = 1 ∧ ∀ s ∈ record.outline.statements, s.part = 0) {outline : Outline}
    (h : r.outline? = some outline) : outline = .merge (r.records.values.map Record.outline) := by
  have hvalue : ∀ record ∈ r.records.values,
      record.outline.parts = 1 ∧ ∀ s ∈ record.outline.statements, s.part = 0 := by
    intro record hrecord
    obtain ⟨⟨part, _⟩, hentry, rfl⟩ := List.mem_map.1 hrecord
    exact hpart part _ (NatMap.get?_eq_some_iff.2 hentry)
  unfold outline? at h
  split at h
  · cases h
  · rename_i record hvalues
    obtain rfl := Option.some.inj h
    obtain ⟨hparts, hplain⟩ := hvalue record (hvalues ▸ List.mem_singleton_self record)
    rw [hvalues]
    exact (Outline.merge_singleton hparts hplain).symm
  · exact (Option.some.inj h).symm

namespace Workspace

/-- In every reachable workspace, an installed outline is the merge of the outlines of the records
of its receipt, in ascending order of the parts, however many these are and whichever requests they
were made for. So it has as many parts as there are records, and its statements, but for their part
numbers, and its names are those of the records one after the other. -/
theorem installed_outline_eq_merge {parser : Parser} (hparser : parser.Agrees)
    {rule : Nat → TouchRule} {w : Workspace} (h : Reachable parser rule w) {id : Nat}
    {i : Installed} (hi : w.installed? id = some i) :
    i.receipt.records.keys.Pairwise (· < ·) ∧
      i.outline = .merge (i.receipt.records.values.map Record.outline) ∧
      i.outline.parts = i.receipt.records.values.length ∧
      (i.outline.statements.map fun s => { s with part := 0 }) =
        i.receipt.records.values.flatMap (·.outline.statements) ∧
      i.outline.names = i.receipt.records.values.flatMap (·.outline.names) := by
  obtain ⟨d, hd, hinstalled⟩ := Option.bind_eq_some_iff.1 hi
  obtain ⟨l, hl, rfl⟩ := Option.map_eq_some_iff.1 hd
  have hlane := h.lane hl
  have hcarries := hlane.carries_parsed hparser (P := fun _ record =>
    record.outline.parts = 1 ∧ ∀ s ∈ record.outline.statements, s.part = 0)
    fun _ _ content options _ => isPart_parse content options
  have hpart := hcarries.installed i hinstalled
  have hmerge := Receipt.outline?_eq_merge hpart (hlane.current.outline i hinstalled)
  have hstamp : ∀ record ∈ i.receipt.records.values,
      record.outline.stamp 0 = record.outline.statements := by
    intro record hrecord
    obtain ⟨⟨part, _⟩, hentry, rfl⟩ := List.mem_map.1 hrecord
    exact Outline.stamp_zero (hpart part _ (NatMap.get?_eq_some_iff.2 hentry)).2
  refine ⟨i.receipt.records.keys_ascending, hmerge, ?_, ?_, ?_⟩
  · rw [hmerge, Outline.merge_parts, List.length_map]
  · rw [hmerge, Outline.unnumbered_statements_merge, List.flatMap_map, List.flatMap_def,
      List.flatMap_def, List.map_congr_left hstamp]
  · rw [hmerge, Outline.names_merge, List.flatMap_map]

/-- Of two parts that have been parsed the first one is removed, and the document is parsed again:
the receipt has the one record that is left, which is that of the first request. -/
def shrunk : Workspace :=
  let w := (ofSettings .standard).add ⟨1, none, none, .project (.buffers .empty) .fresh⟩
  let w := w.mapDocument 1 (Touch.apply · (.edit (.set 0 "pass".toUTF8)))
  let w := w.mapDocument 1 (Touch.apply · (.edit (.set 1 "import os".toUTF8)))
  let w := (w.enqueue (some 1) .standard true).1
  let w := w.settle .plain ⟨1, 1⟩
  let w := w.mapDocument 1 (Touch.apply · (.edit (.remove 0)))
  let w := (w.enqueue (some 1) .standard true).1
  w.settle .plain ⟨1, 2⟩

theorem reachable_shrunk : Reachable .plain (fun _ _ _ => True) shrunk := by
  refine ⟨.standard, ?_⟩
  unfold shrunk
  refine Relation.ReflTransGen.trans ?_ (run_settle _ _ _ _)
  refine .tail ?_ (.enqueue (some 1) .standard true)
  refine .tail ?_ (.touch (.edit (.remove 0)) rfl trivial)
  refine Relation.ReflTransGen.trans ?_ (run_settle _ _ _ _)
  refine .tail ?_ (.enqueue (some 1) .standard true)
  refine .tail ?_ (.touch (.edit (.set 1 "import os".toUTF8)) rfl trivial)
  refine .tail ?_ (.touch (.edit (.set 0 "pass".toUTF8)) rfl trivial)
  exact .single (.add ⟨rfl, rfl⟩ rfl)

theorem shrunk_outline_eq_merge : Reachable .plain (fun _ _ _ => True) shrunk ∧
    ∃ i, shrunk.installed? 1 = some i ∧ i.receipt.turn = 2 ∧ i.receipt.records.keys = [1] ∧
      i.receipt.records.values.map Record.turn = [1] ∧
      i.outline.statements = [⟨.importing, ⟨⟨0, 0⟩, ⟨0, 9⟩⟩, 0, ["os"], 0⟩] ∧
      i.outline.names = ["os"] ∧
      i.receipt.records.keys.Pairwise (· < ·) ∧
      i.outline = .merge (i.receipt.records.values.map Record.outline) ∧
      i.outline.parts = i.receipt.records.values.length ∧
      (i.outline.statements.map fun s => { s with part := 0 }) =
        i.receipt.records.values.flatMap (·.outline.statements) ∧
      i.outline.names = i.receipt.records.values.flatMap (·.outline.names) := by
  have hshown : (shrunk.installed? 1).map (fun i => (i.receipt.turn, i.receipt.records.keys,
      i.receipt.records.values.map Record.turn, i.outline.statements)) =
      some (2, [1], [1], [⟨.importing, ⟨⟨0, 0⟩, ⟨0, 9⟩⟩, 0, ["os"], 0⟩]) := by decide +kernel
  obtain ⟨i, hi, heq⟩ := Option.map_eq_some_iff.1 hshown
  simp only [Prod.mk.injEq] at heq
  obtain ⟨hturn, hkeys, hturns, hstatements⟩ := heq
  have hnames : i.outline.names = ["os"] := congrArg (List.flatMap Statement.bindings) hstatements
  exact ⟨reachable_shrunk, i, hi, hturn, hkeys, hturns, hstatements, hnames,
    installed_outline_eq_merge Parser.plain_agrees reachable_shrunk hi⟩

end Workspace

end Reparse
