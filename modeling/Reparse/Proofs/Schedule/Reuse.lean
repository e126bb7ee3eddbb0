import Reparse.Proofs.Schedule.Provenance

/-!
Parsing again what has changed is parsing everything. A request uses the records of the installed
receipt wherever their versions allow it; where all requests have the same options, its records say
what a parse of its own readings says.
-/

namespace Reparse

open Relation

namespace Lane

variable {parser : Parser} {rule : TouchRule} {l l' : Lane}

/-! ## All requests with the same options -/

def Uniform (l : Lane) (options : Options) : Prop :=
  ∀ r ∈ l.requests, r.options = options

theorem Uniform.governed {options : Options} (h : l.Uniform options) :
    l.Governed fun _ => options := h

theorem Uniform.of_run {options : Options} (h : l'.Uniform options)
    (hrun : Lane.Run parser rule l l') : l.Uniform options :=
  h.governed.of_run hrun

theorem Reachable.logged (hparser : parser.Agrees) (hrule : ∀ d t, rule d t → t.IsFresh d)
    (h : l.Reachable parser rule) {options : Options} (huniform : l.Uniform options) {b : Buffers}
    (hb : l.document.buffers? = some b) : l.Logged (fun _ => options) b :=
  h.logged_of_governed hparser hrule huniform.governed hb

end Lane

namespace Workspace

/-- Parsing only what has changed gives what parsing everything gives. Let a document be edited in
memory, by fresh edits alone, and parsed with the same options throughout. A request that starts
and succeeds has read exactly the parts that were listed at its start, and what it has read the
document said while it ran; its receipt has a record of exactly those parts that had content, with
the version that was read and with what a parse of that very content gives. If nobody touches the
document meanwhile, these are the parts that could be read at the start. -/
theorem incremental_eq_from_scratch {parser : Parser} (hparser : parser.Agrees) {id : Nat}
    {rule : Nat → TouchRule} (hrule : ∀ d t, rule id d t → t.IsFresh d) {w₀ w₁ w : Workspace}
    (hreach : Reachable parser rule w₀) {l₀ l : Lane} {b : Buffers} {r : Request}
    (hl₀ : w₀.lanes.get? id = some l₀) (hb : l₀.document.buffers? = some b) (hr : r ∈ l₀.requests)
    (hqueued : r.stage = .queued) (hstart : w₀.advance parser ⟨id, r.turn⟩ = some w₁)
    (hrun : Run parser rule w₁ w) (hl : w.lanes.get? id = some l)
    (hoptions : l.Uniform r.options) {receipt : Receipt}
    (hout : w.outcome? ⟨id, r.turn⟩ = some (.ok receipt)) :
    (∀ part, (l.reading? r.turn part).isSome = true ↔ part ∈ b.parts.keys) ∧
    (∀ part reading, l.reading? r.turn part = some reading → ∃ v d, Run parser rule w₁ v ∧
      Run parser rule v w ∧ v.document? id = some d ∧ reading = (d.read part).1) ∧
    (∀ part, (receipt.get? part).map Record.findings =
      (l.reading? r.turn part).bind (·.findings? r.options)) ∧
    (Run parser (fun other d t => other ≠ id ∧ rule other d t) w₁ w → ∀ part,
      (receipt.get? part).map Record.findings =
        (b.read? part).map fun (content, version) => (version, parse content r.options)) := by
  have hreach₀ := hreach.lane hl₀
  have hchain₀ := hreach₀.chained
  have hr₀ := hchain₀.numbered.request?_eq hr
  obtain ⟨l₁, hl₁, hadvance⟩ := lane_of_advance hstart hl₀
  obtain ⟨s, hs, hmoves⟩ := Lane.advance_moves hadvance
  obtain rfl := Option.some.inj (hr₀.symm.trans hs)
  obtain ⟨l', hl', hlane⟩ := hrun.lane hl₁
  obtain rfl := Option.some.inj (hl.symm.trans hl')
  have hfirst : Lane.Run parser (rule id) l₀ l := .head (.advance hadvance) hlane
  -- The request starts with nothing read and all listed parts before it.
  have hlogged₀ := hreach₀.logged hparser hrule (hoptions.of_run hfirst) hb
  have hunread₀ := hlogged₀.unread_of_queued hr₀ hqueued
  have hunread : ∀ part, l₁.reading? r.turn part = none := by
    rw [hmoves.eq_of_queued hqueued]
    exact hunread₀
  have hvisits := (Lane.visits_of_start hchain₀ hr₀ hqueued hmoves hunread₀ hb).run
    (hchain₀.moves hr₀ hmoves) hlane
  -- It ends with a success, whose records say what its readings say.
  have hreach' := hreach₀.run hfirst
  rw [outcome?_of_get? hl] at hout
  have hresult := hreach'.chained.result?_eq_some_iff.2 (.inl hout)
  obtain ⟨b', hb'⟩ := Lane.exists_buffers?_run hrule hfirst hb
  have hsuccess := (hreach'.logged hparser hrule hoptions hb').success r.turn receipt hresult
  have hlisted := hvisits.success receipt hresult
  refine ⟨fun part => (hlisted part).symm, ?_, hsuccess, ?_⟩
  · intro part reading hreading
    exact hrun.reading? hl₁ hl (hunread part) hreading
  · intro hquiet part
    obtain ⟨l'', hl'', hquietLane⟩ := hquiet.lane hl₁
    obtain rfl := Option.some.inj (hl.symm.trans hl'')
    obtain ⟨-, hreadings⟩ := Lane.reading?_of_quiet (fun _ _ htouch => htouch.1 rfl) hquietLane
      (hmoves.buffers?.trans hb) hunread
    rw [hsuccess part]
    exact b.findings?_of_readings hlisted hreadings r.options part

/-- Two parts have been parsed once. -/
def parsedOnce : Workspace :=
  let w := (ofSettings .standard).add ⟨1, none, none, .project (.buffers .empty) .fresh⟩
  let w := w.mapDocument 1 (Touch.apply · (.edit (.set 0 "x = 1".toUTF8)))
  let w := w.mapDocument 1 (Touch.apply · (.edit (.set 1 "y = 2".toUTF8)))
  let w := (w.enqueue (some 1) .standard true).1
  w.settle .plain ⟨1, 1⟩

/-- One of the parts has been removed and added again, and the document is to be parsed anew. -/
def readded : Workspace :=
  let w := parsedOnce.mapDocument 1 (Touch.apply · (.edit (.remove 1)))
  let w := w.mapDocument 1 (Touch.apply · (.edit (.set 1 "z = 3".toUTF8)))
  (w.enqueue (some 1) .standard true).1

/-- The second request has started. -/
def restarted : Workspace :=
  (readded.advance .plain ⟨1, 2⟩).getD readded

theorem reachable_readded : Reachable .plain (fun _ d t => t.IsFresh d) readded := by
  refine ⟨.standard, ?_⟩
  unfold readded
  refine .tail ?_ (.enqueue (some 1) .standard true)
  refine .tail ?_ (.touch (.edit (.set 1 "z = 3".toUTF8)) rfl (Touch.isFresh_set rfl (by decide)))
  refine .tail ?_ (.touch (.edit (.remove 1)) rfl (fun _ _ => trivial))
  unfold parsedOnce
  refine ReflTransGen.trans ?_ (run_settle _ _ _ _)
  refine .tail ?_ (.enqueue (some 1) .standard true)
  refine .tail ?_ (.touch (.edit (.set 1 "y = 2".toUTF8)) rfl (Touch.isFresh_set rfl (by decide)))
  refine .tail ?_ (.touch (.edit (.set 0 "x = 1".toUTF8)) rfl (Touch.isFresh_set rfl (by decide)))
  exact .single (.add ⟨rfl, rfl⟩ rfl)

/-- The first part keeps the record of the first request, and the other one gets a new record. -/
theorem readded_eq_from_scratch : Reachable .plain (fun _ d t => t.IsFresh d) readded ∧
    readded.advance .plain ⟨1, 2⟩ = some restarted ∧
    ∃ l₀ l r b receipt, readded.lanes.get? 1 = some l₀ ∧ l₀.document.buffers? = some b ∧
      r ∈ l₀.requests ∧ r.turn = 2 ∧ r.stage = .queued ∧
      (restarted.settle .plain ⟨1, 2⟩).lanes.get? 1 = some l ∧ l.Uniform r.options ∧
      (restarted.settle .plain ⟨1, 2⟩).outcome? ⟨1, 2⟩ = some (.ok receipt) ∧
      receipt.records.keys = [0, 1] ∧ receipt.records.values.map Record.turn = [1, 2] ∧
      ∀ part, (receipt.get? part).map Record.findings =
        (b.read? part).map fun (content, version) => (version, parse content r.options) := by
  refine ⟨reachable_readded, rfl, _, _, _, _, _, rfl, rfl, .tail _ (.head _), rfl, rfl, rfl, ?_,
    rfl, rfl, rfl, ?_⟩
  · unfold Lane.Uniform
    decide +kernel
  · have hrun : ∀ rule, Run .plain rule restarted (restarted.settle .plain ⟨1, 2⟩) := by
      intro rule
      exact run_settle _ rule restarted ⟨1, 2⟩
    refine (incremental_eq_from_scratch Parser.plain_agrees (fun _ _ h => h) reachable_readded
      (rfl : readded.lanes.get? 1 = some _) rfl (.tail _ (.head _)) rfl rfl (hrun _) rfl ?_
      rfl).2.2.2 (hrun _)
    unfold Lane.Uniform
    decide +kernel

end Workspace

end Reparse
