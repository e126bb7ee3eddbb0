import Reparse.Proofs.Document.Versions
import Reparse.Proofs.Schedule.Records

/-!
The part numbers of installed statements. A parse numbers no parts, and a merge numbers the merged
outlines by their places, so a statement carries the place of its record among the records of the
receipt. That is the part the statement is from only where the key of the record is its place.
-/

namespace Reparse

open Relation

theorem part_of_mem_parse {content : ByteArray} {options : Options} {s : Statement}
    (h : s ∈ (parse content options).outline.statements) : s.part = 0 := by
  obtain ⟨event, -, hs⟩ := List.mem_flatMap.1 h
  cases event with
  | line l =>
    obtain ⟨sorted, -, rfl⟩ := List.mem_map.1 hs
    rfl
  | comment start text => cases hs
  | fault range f => cases hs

theorem Outline.stamp_zero {o : Outline} (h : ∀ s ∈ o.statements, s.part = 0) :
    o.stamp 0 = o.statements := by
  unfold stamp
  rw [List.map_congr_left, List.map_id']
  intro s hs
  rw [← h s hs]

theorem Outline.statements_merge_map {α : Type} (f : α → Outline) (xs : List α) :
    (merge (xs.map f)).statements = xs.zipIdx.flatMap fun (x, place) => (f x).stamp place := by
  simp [merge, List.zipIdx_map, List.flatMap_map]

/-- Lists that are put together from blocks of the same lengths are the same only block by block. -/
theorem flatMap_map_const_eq_iff {α β γ : Type} (xs : List α) (block : α → List β) (f g : α → γ) :
    (xs.flatMap fun x => (block x).map fun _ => f x) =
        (xs.flatMap fun x => (block x).map fun _ => g x) ↔
      ∀ x ∈ xs, block x ≠ [] → f x = g x := by
  induction xs with
  | nil => simp
  | cons x xs ih =>
    rw [List.flatMap_cons, List.flatMap_cons, List.forall_mem_cons, ← ih]
    have hlength : ((block x).map fun _ => f x).length = ((block x).map fun _ => g x).length := by
      rw [List.length_map, List.length_map]
    constructor
    · -- The first blocks are of one length, so the lists are cut at the same place.
      intro h
      obtain ⟨hblock, hrest⟩ := List.append_inj h hlength
      refine ⟨?_, hrest⟩
      intro hne
      obtain ⟨y, ys, hys⟩ := List.exists_cons_of_ne_nil hne
      rw [hys] at hblock
      exact (List.cons.inj hblock).1
    · rintro ⟨hx, hrest⟩
      rw [hrest]
      congr 1
      apply List.map_congr_left
      intro y hy
      exact hx (List.ne_nil_of_mem hy)

namespace Receipt

/-- The parts from which the statements are, in the order of the statements. -/
def sources (r : Receipt) : List Nat :=
  r.records.entries.flatMap fun e => e.2.outline.statements.map fun _ => e.1

/-- Statements that no part has been entered in yet are numbered by the places of their records. -/
theorem statements_of_outline? {r : Receipt}
    (hplain : ∀ part record, r.get? part = some record →
      ∀ s ∈ record.outline.statements, s.part = 0) {outline : Outline}
    (h : r.outline? = some outline) :
    outline.statements =
      r.records.entries.zipIdx.flatMap fun (e, place) => e.2.outline.stamp place := by
  unfold outline? NatMap.values at h
  match hentries : r.records.entries with
  | [] =>
    rw [hentries] at h
    cases h
  | [(part, record)] =>
    rw [hentries] at h
    obtain rfl := Option.some.inj h
    have hget : r.get? part = some record := by
      rw [get?, NatMap.get?_eq_some_iff, hentries]
      exact .head _
    have hstamp := Outline.stamp_zero (hplain part record hget)
    simp [hstamp]
  | e :: e' :: es =>
    rw [hentries] at h
    obtain rfl := Option.some.inj h
    have hmerge := Outline.statements_merge_map (Record.outline ∘ Prod.snd) (e :: e' :: es)
    rw [← List.map_map] at hmerge
    exact hmerge

/-- The statements have the numbers of their parts just where the records have their places as
keys. Records without statements do not count. -/
theorem parts_eq_sources_iff {r : Receipt}
    (hplain : ∀ part record, r.get? part = some record →
      ∀ s ∈ record.outline.statements, s.part = 0) {outline : Outline}
    (h : r.outline? = some outline) :
    outline.statements.map Statement.part = r.sources ↔
      ∀ (place part : Nat) (record : Record), r.records.entries[place]? = some (part, record) →
        record.outline.statements ≠ [] → place = part := by
  have hparts : outline.statements.map Statement.part = r.records.entries.zipIdx.flatMap
      fun x => x.1.2.outline.statements.map fun _ => x.2 := by
    rw [statements_of_outline? hplain h, List.map_flatMap]
    simp only [Outline.stamp, List.map_map, Function.comp_def]
  have hsources : r.sources = r.records.entries.zipIdx.flatMap
      fun x => x.1.2.outline.statements.map fun _ => x.1.1 := by
    have hfst := List.flatMap_map (l := r.records.entries.zipIdx) Prod.fst
      fun e => e.2.outline.statements.map fun _ => e.1
    rw [List.zipIdx_map_fst] at hfst
    exact hfst
  rw [hparts, hsources, flatMap_map_const_eq_iff]
  constructor
  · intro hall place part record hentry hne
    exact hall ((part, record), place) (List.mem_zipIdx_iff_getElem?.2 hentry) hne
  · rintro hall ⟨⟨part, record⟩, place⟩ hmem hne
    exact hall place part record (List.mem_zipIdx_iff_getElem?.1 hmem) hne

end Receipt

namespace Lane

/-- What holds of every record of a parse holds of all records that a lane carries, however many
requests they have been carried over. -/
theorem Reachable.carries_parsed {parser : Parser} (hparser : parser.Agrees) {rule : TouchRule}
    {l : Lane} (h : l.Reachable parser rule) {P : Nat → Record → Prop}
    (hparsed : ∀ part version content options turn, P part
      ⟨version, (parse content options).outline, (parse content options).diagnostics, turn⟩) :
    l.Carries P := by
  obtain ⟨d, hnew, hrun⟩ := h
  induction hrun with
  | refl => exact carries_ofDocument hnew
  | @tail l l' hinit hstep ih =>
    have hreachable : l.Reachable parser rule := ⟨d, hnew, hinit⟩
    cases hstep with
    | touch t _ => exact ih.touch t
    | accept options => exact ih.accept options
    | advance hadvance =>
      obtain ⟨r, hr, hmoves⟩ := advance_moves hadvance
      obtain rfl := turn_of_request? hr
      refine ih.moves hr hmoves ?_
      intro part content version parsed _ hresult
      obtain rfl := hparser content r.options parsed hresult
      exact hparsed part version content r.options r.turn
    | drop _ => exact ih.drop hreachable.chained

/-- No record that a lane carries has numbered its statements. -/
theorem Reachable.plain {parser : Parser} (hparser : parser.Agrees) {rule : TouchRule} {l : Lane}
    (h : l.Reachable parser rule) :
    l.Carries fun _ record => ∀ s ∈ record.outline.statements, s.part = 0 :=
  h.carries_parsed hparser fun _ _ _ _ _ _ => part_of_mem_parse

end Lane

namespace Workspace

/-- Every installed statement carries the place of its record among the records of the receipt, in
the order of their parts. This is the part it is from exactly if every record that has statements
has its place as its key, as it is where the parts from zero on can all be read. -/
theorem installed_parts_are_places {parser : Parser} (hparser : parser.Agrees)
    {rule : Nat → TouchRule} {w : Workspace} (h : Reachable parser rule w) {id : Nat}
    {i : Installed} (hi : w.installed? id = some i) :
    i.outline.statements =
        (i.receipt.records.entries.zipIdx.flatMap fun (e, place) => e.2.outline.stamp place) ∧
      (i.outline.statements.map Statement.part = i.receipt.sources ↔
        ∀ (place part : Nat) (record : Record),
          i.receipt.records.entries[place]? = some (part, record) →
          record.outline.statements ≠ [] → place = part) := by
  obtain ⟨d, hd, hinstalled⟩ := Option.bind_eq_some_iff.1 hi
  obtain ⟨l, hl, rfl⟩ := Option.map_eq_some_iff.1 hd
  have hlane := h.lane hl
  have houtline := hlane.current.outline i hinstalled
  have hplain := (hlane.plain hparser).installed i hinstalled
  exact ⟨Receipt.statements_of_outline? hplain houtline,
    Receipt.parts_eq_sources_iff hplain houtline⟩

/-- A document with two parts and a gap between them has been parsed. -/
def gapped : Workspace :=
  let w := (ofSettings .standard).add ⟨1, none, none, .project (.buffers .empty) .fresh⟩
  let w := w.mapDocument 1 (Touch.apply · (.edit (.set 0 "pass".toUTF8)))
  let w := w.mapDocument 1 (Touch.apply · (.edit (.set 2 "pass".toUTF8)))
  let w := (w.enqueue (some 1) .standard true).1
  w.settle .plain ⟨1, 1⟩

theorem reachable_gapped : Reachable .plain (fun _ _ _ => True) gapped := by
  refine ⟨.standard, ?_⟩
  unfold gapped
  refine ReflTransGen.trans ?_ (run_settle _ _ _ _)
  refine .tail ?_ (.enqueue (some 1) .standard true)
  refine .tail ?_ (.touch (.edit (.set 2 "pass".toUTF8)) rfl trivial)
  refine .tail ?_ (.touch (.edit (.set 0 "pass".toUTF8)) rfl trivial)
  exact .single (.add ⟨rfl, rfl⟩ rfl)

theorem gapped_parts_are_places : Reachable .plain (fun _ _ _ => True) gapped ∧
    ∃ i, gapped.installed? 1 = some i ∧ i.receipt.records.keys = [0, 2] ∧
      i.outline.statements =
        (i.receipt.records.entries.zipIdx.flatMap fun (e, place) => e.2.outline.stamp place) ∧
      (i.outline.statements.map Statement.part = i.receipt.sources ↔
        ∀ (place part : Nat) (record : Record),
          i.receipt.records.entries[place]? = some (part, record) →
          record.outline.statements ≠ [] → place = part) :=
  ⟨reachable_gapped, _, rfl, rfl,
    installed_parts_are_places Parser.plain_agrees reachable_gapped
      (rfl : gapped.installed? 1 = some _)⟩

/-- Statements do not always carry the part they are from. -/
theorem not_forall_parts_eq_sources :
    ¬ ∀ w, Reachable .plain (fun _ _ _ => True) w → ∀ id i, w.installed? id = some i →
      i.outline.statements.map Statement.part = i.receipt.sources := by
  intro hall
  obtain ⟨i, hi, hparts, hsources⟩ : ∃ i, gapped.installed? 1 = some i ∧
      i.outline.statements.map Statement.part = [0, 1] ∧ i.receipt.sources = [0, 2] :=
    ⟨_, rfl, by decide +kernel, by decide +kernel⟩
  have heq := hall gapped reachable_gapped 1 i hi
  rw [hparts, hsources] at heq
  exact absurd heq (by decide)

end Workspace

end Reparse
