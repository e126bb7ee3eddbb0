import Reparse.Proofs.Document.Versions
import Reparse.Proofs.Schedule.Installed

/-!
What a request reads. It reads the parts that are listed when it starts, each of them once; what it
reads of a part is what the part says at that moment, and while nobody touches the document, what
the part has said from the start.
-/

namespace Reparse

open Relation

theorem Document.read_of_buffers? {d : Document} {b : Buffers} (h : d.buffers? = some b)
    (part : Nat) : (d.read part).1 = b.reading part := by
  unfold buffers? at h
  split at h
  · rename_i c hbody
    cases h
    simp only [read, hbody, Store.read]
    rfl
  · cases h

/-- Where the listed parts have been read as they are, the readings give what the parts give. -/
theorem Buffers.findings?_of_readings {b : Buffers} {readings : Nat → Option Reading}
    (hlisted : ∀ part, part ∈ b.parts.keys ↔ (readings part).isSome = true)
    (hreadings : ∀ part reading, readings part = some reading → reading = b.reading part)
    (options : Options) (part : Nat) :
    (readings part).bind (·.findings? options) =
      (b.read? part).map fun (content, version) => (version, parse content options) := by
  rw [← b.findings?_reading]
  cases hreading : readings part with
  | some reading => rw [Option.bind_some, hreadings part reading hreading]
  | none =>
    have hunlisted : part ∉ b.parts.keys := by
      rw [hlisted part, hreading]
      exact Bool.false_ne_true
    rw [Option.bind_none, b.findings?_reading, read?, NatMap.get?_eq_none_iff.2 hunlisted]
    rfl

namespace Lane

variable {parser : Parser} {rule : TouchRule} {l l' : Lane} {r : Request}

theorem Reads.reading? {l l₁ : Lane} {turn part : Nat} (h : l.Reads turn part l₁) (t p : Nat) :
    l₁.reading? t p =
      if t = turn ∧ p = part then some (l.document.read part).1 else l.reading? t p := by
  unfold Lane.reading?
  rw [h.reads, List.find?_cons]
  by_cases heq : t = turn ∧ p = part
  · obtain ⟨rfl, rfl⟩ := heq
    simp
  · have hbeq : (turn == t && part == p) = false := by
      simp only [Bool.and_eq_false_imp, beq_iff_eq, beq_eq_false_iff_ne]
      rintro rfl rfl
      exact heq ⟨rfl, rfl⟩
    rw [if_neg heq]
    simp only [hbeq]

/-- A step of a request reads nothing in the name of another one. -/
theorem Moves.reading? (h : l.Moves parser r l') (t p : Nat) :
    l'.reading? t p = l.reading? t p ∨
      t = r.turn ∧ l'.reading? t p = some (l.document.read p).1 := by
  have key : ∀ {part l₁}, l.Reads r.turn part l₁ →
      l₁.reading? t p = l.reading? t p ∨
        t = r.turn ∧ l₁.reading? t p = some (l.document.read p).1 := by
    intro part l₁ hreads
    rw [hreads.reading?]
    split
    · rename_i heq
      obtain ⟨rfl, rfl⟩ := heq
      exact .inr ⟨rfl, rfl⟩
    · exact .inl rfl
  cases h with
  | skip _ _ hreads =>
    have hread := key hreads
    exact hread
  | gather _ _ _ hreads =>
    have hread := key hreads
    exact hread
  | @fail job failure l₁ _ _ hreads =>
    rcases hreads with hreads | ⟨part, hreads⟩
    · left
      have hsame : (l₁.fail r.turn failure).reads = l.reads := hreads
      unfold Lane.reading?
      rw [hsame]
    · have hread := key hreads
      exact hread
  | hand _ hreads =>
    have hread := key hreads
    exact hread
  | _ => exact .inl rfl

theorem Moves.buffers? (h : l.Moves parser r l') : l'.document.buffers? = l.document.buffers? := by
  cases h with
  | skip _ _ hreads => exact hreads.buffers
  | gather _ _ _ hreads => exact hreads.buffers
  | fail _ hkeeps _ => exact (Document.buffers?_mapLifecycle _ _).trans hkeeps.buffers
  | install _ _ => exact l.document.buffers?_mapLifecycle _
  | hand _ hreads => exact hreads.buffers
  | _ => rfl

theorem reading?_dropQueued (l : Lane) (t p : Nat) :
    l.dropQueued.reading? t p = l.reading? t p := by
  unfold reading? dropQueued
  rw [reads_foldl_drop]

theorem buffers?_dropQueued (l : Lane) : l.dropQueued.document.buffers? = l.document.buffers? := by
  unfold dropQueued
  rw [document_foldl_drop, Document.buffers?_mapLifecycle]

/-! ## The way through the parts -/

theorem firstJob_of_buffers? {b : Buffers} (h : l.document.buffers? = some b) :
    l.firstJob = .project b.parts.keys.reverse (l.document.installed?.map Installed.receipt)
      .empty := by
  unfold Document.buffers? at h
  unfold firstJob Document.installed? Document.lifecycle?
  split at h
  · rename_i c hbody
    cases h
    rw [hbody]
    rfl
  · cases h

/-- A request that has started is on its way through the listed parts: each of them has been read or
is still to be read, and once the request has succeeded, all have been read. -/
structure Visits (l : Lane) (turn : Nat) (listed : List Nat) : Prop where
  started : ∃ r, l.request? turn = some r ∧ r.stage ≠ .queued
  running : ∀ r job, l.request? turn = some r → r.stage = .running job →
    ∃ todo last records, job = .project todo last records ∧
      ∀ part, part ∈ listed ↔ part ∈ todo ∨ (l.reading? turn part).isSome = true
  success : ∀ receipt, l.result? turn = some (.ok receipt) →
    ∀ part, part ∈ listed ↔ (l.reading? turn part).isSome = true

theorem Reads.visits {l l₁ : Lane} {turn part : Nat} (h : l.Reads turn part l₁)
    {listed todo : List Nat}
    (hlisted : ∀ p, p ∈ listed ↔ p ∈ part :: todo ∨ (l.reading? turn p).isSome = true) (p : Nat) :
    p ∈ listed ↔ p ∈ todo ∨ (l₁.reading? turn p).isSome = true := by
  rw [hlisted, h.reading?]
  by_cases heq : p = part
  · simp [heq]
  · simp [heq]

/-- The new stage of a request decides whether it is on its way. -/
theorem visits_of_stage {listed : List Nat} (hchain : l.Chained)
    (hr : l.request? r.turn = some r) (hmoves : l.Moves parser r l') {stage : Stage}
    (hself : l'.request? r.turn = some { r with stage }) (hstarted : stage ≠ .queued)
    (hrunning : ∀ job, stage = .running job → ∃ todo last records,
      job = .project todo last records ∧
        ∀ part, part ∈ listed ↔ part ∈ todo ∨ (l'.reading? r.turn part).isSome = true)
    (hsuccess : ∀ receipt, stage.outcome?.or (l.result? r.turn) = some (.ok receipt) →
      ∀ part, part ∈ listed ↔ (l'.reading? r.turn part).isSome = true) :
    l'.Visits r.turn listed where
  started := ⟨_, hself, hstarted⟩
  running := by
    intro s job hs hstage
    obtain rfl := Option.some.inj (hself.symm.trans hs)
    exact hrunning job hstage
  success := by
    intro receipt hres
    rw [hmoves.result? hchain hr hself r.turn, if_pos rfl] at hres
    exact hsuccess receipt hres

/-- The next part has been read, whatever it has given. -/
theorem Visits.read {listed : List Nat} (h : l.Visits r.turn listed) (hchain : l.Chained)
    (hr : l.request? r.turn = some r) {part : Nat} {todo : List Nat} {last : Option Receipt}
    {records records' : NatMap Record}
    (hstage : r.stage = .running (.project (part :: todo) last records)) {l₁ : Lane}
    (hreads : l.Reads r.turn part l₁)
    (hmoves : l.Moves parser r (l₁.setStage r.turn (.running (.project todo last records')))) :
    (l₁.setStage r.turn (.running (.project todo last records'))).Visits r.turn listed := by
  obtain ⟨_, _, _, hjob, hlisted⟩ := h.running r _ hr hstage
  cases hjob
  refine visits_of_stage hchain hr hmoves (request?_setStage_self (hreads.request?_eq_some hr) _)
    nofun ?_ ?_
  · intro job hjob
    cases hjob
    exact ⟨_, _, _, rfl, hreads.visits hlisted⟩
  · intro receipt hres
    rw [hchain.result?_of_running hr hstage] at hres
    cases hres

theorem Visits.moves {listed : List Nat} (h : l.Visits r.turn listed) (hchain : l.Chained)
    (hr : l.request? r.turn = some r) (hmoves : l.Moves parser r l') : l'.Visits r.turn listed := by
  have key := @visits_of_stage parser l l' r listed hchain hr hmoves
  cases hmoves with
  | start hstage _ =>
    obtain ⟨s, hs, hstarted⟩ := h.started
    obtain rfl := Option.some.inj (hr.symm.trans hs)
    exact absurd hstage hstarted
  | skip hstage hreading hreads =>
    have hskip : l.Moves parser r _ := .skip hstage hreading hreads
    exact h.read hchain hr hstage hreads hskip
  | gather hstage hreading hrecord hreads =>
    exact h.read hchain hr hstage hreads (.gather hstage hreading hrecord hreads)
  | @fail job failure l₁ hstage hkeeps _ =>
    have hself : (l₁.fail r.turn failure).request? r.turn =
        some { r with stage := .concluded (.error failure) } :=
      request?_setStage_self (hkeeps.request?_eq_some hr) _
    exact key hself nofun nofun nofun
  | install hstage _ =>
    obtain ⟨_, _, _, hjob, hlisted⟩ := h.running r _ hr hstage
    cases hjob
    refine key (request?_setStage_self hr _) nofun nofun ?_
    intro receipt _ part
    exact (hlisted part).trans (or_iff_right List.not_mem_nil)
  | hand hstage _ =>
    obtain ⟨_, _, _, hjob, -⟩ := h.running r _ hr hstage
    cases hjob
  | deliver hstage => exact key (request?_setStage_self hr _) nofun nofun h.success
  | signal hstage => exact key (request?_setStage_self hr _) nofun nofun h.success
  | finish hstage => exact key (request?_setStage_self hr _) nofun nofun h.success

theorem Visits.step {turn : Nat} {listed : List Nat} (h : l.Visits turn listed)
    (hchain : l.Chained) (hstep : Lane.Step parser rule l l') : l'.Visits turn listed := by
  obtain ⟨r, hr, hstarted⟩ := h.started
  cases hstep with
  | touch t _ => exact ⟨h.started, h.running, h.success⟩
  | accept o =>
    have hr' := request?_accept_of_some hr o
    refine ⟨⟨r, hr', hstarted⟩, ?_, ?_⟩
    · intro s job hs hstage
      obtain rfl := Option.some.inj (hr'.symm.trans hs)
      exact h.running r job hr hstage
    · intro receipt hres
      rw [result?_accept] at hres
      exact h.success receipt hres
  | advance hadvance =>
    obtain ⟨s, hs, hmoves⟩ := advance_moves hadvance
    obtain rfl := turn_of_request? hs
    by_cases heq : turn = s.turn
    · subst heq
      exact h.moves hchain hs hmoves
    · obtain ⟨stage, -, -, hself, hother⟩ := hmoves.request? hs
      have hreading : ∀ part, l'.reading? turn part = l.reading? turn part := by
        intro part
        exact (hmoves.reading? turn part).resolve_right fun hnew => heq hnew.1
      refine ⟨⟨r, (hother turn heq).trans hr, hstarted⟩, ?_, ?_⟩
      · intro a job ha hstage
        simp only [hreading]
        exact h.running a job (hother turn heq ▸ ha) hstage
      · intro receipt hres
        rw [hmoves.result? hchain hs hself turn, if_neg heq] at hres
        simp only [hreading]
        exact h.success receipt hres
  | drop hidle =>
    have hr' : l.dropQueued.request? turn = some r := by
      rw [hchain.numbered.request?_dropQueued, hr, Option.map_some, if_neg]
      intro hqueued
      exact hstarted (Stage.isQueued_iff.1 hqueued)
    refine ⟨⟨r, hr', hstarted⟩, ?_, ?_⟩
    · intro s job hs hstage
      obtain rfl := Option.some.inj (hr'.symm.trans hs)
      simp only [reading?_dropQueued]
      exact h.running r job hr hstage
    · intro receipt hres
      simp only [reading?_dropQueued]
      exact h.success receipt (hchain.success_of_dropQueued hres)

theorem Visits.run {turn : Nat} {listed : List Nat} (h : l.Visits turn listed)
    (hchain : l.Chained) (hrun : Lane.Run parser rule l l') : l'.Visits turn listed := by
  induction hrun with
  | refl => exact h
  | tail hinit hstep ih => exact ih.step (hchain.run hinit) hstep

/-- A request that starts has all listed parts before it. -/
theorem visits_of_start (hchain : l.Chained) (hr : l.request? r.turn = some r)
    (hqueued : r.stage = .queued) (hmoves : l.Moves parser r l')
    (hunread : ∀ part, l.reading? r.turn part = none) {b : Buffers}
    (hb : l.document.buffers? = some b) : l'.Visits r.turn b.parts.keys := by
  obtain rfl := hmoves.eq_of_queued hqueued
  have hself := request?_setStage_self hr (.running l.firstJob)
  have hresult := (hchain.moves hr hmoves).result?_of_running
    (r := { r with stage := .running l.firstJob }) hself rfl
  refine ⟨⟨_, hself, nofun⟩, ?_, ?_⟩
  · intro s job hs hstage
    obtain rfl := Option.some.inj (hself.symm.trans hs)
    cases hstage
    refine ⟨_, _, _, firstJob_of_buffers? hb, ?_⟩
    intro part
    have hnone : (l.setStage r.turn (.running l.firstJob)).reading? r.turn part = none :=
      hunread part
    rw [List.mem_reverse, hnone]
    simp
  · intro receipt hres
    rw [hresult] at hres
    cases hres

theorem reading?_step (hstep : Lane.Step parser rule l l') (turn part : Nat) :
    l'.reading? turn part = l.reading? turn part ∨
      l'.reading? turn part = some (l.document.read part).1 := by
  cases hstep with
  | touch t _ => exact .inl rfl
  | accept o => exact .inl rfl
  | advance hadvance =>
    obtain ⟨r, -, hmoves⟩ := advance_moves hadvance
    exact (hmoves.reading? turn part).imp id And.right
  | drop _ => exact .inl (l.reading?_dropQueued turn part)

/-- While nobody touches the document, every reading is what the parts say. -/
theorem reading?_of_quiet (hquiet : ∀ d t, ¬ rule d t) (hrun : Lane.Run parser rule l l')
    {b : Buffers} (hb : l.document.buffers? = some b) {turn : Nat}
    (hunread : ∀ part, l.reading? turn part = none) :
    l'.document.buffers? = some b ∧
      ∀ part reading, l'.reading? turn part = some reading → reading = b.reading part := by
  induction hrun with
  | refl =>
    refine ⟨hb, ?_⟩
    intro part reading hreading
    rw [hunread] at hreading
    cases hreading
  | tail _ hstep ih =>
    obtain ⟨hb', hreadings⟩ := ih
    cases hstep with
    | touch t hallowed => exact absurd hallowed (hquiet _ _)
    | accept o => exact ⟨(Document.buffers?_mapLifecycle _ _).trans hb', hreadings⟩
    | advance hadvance =>
      obtain ⟨r, -, hmoves⟩ := advance_moves hadvance
      refine ⟨hmoves.buffers?.trans hb', ?_⟩
      intro part reading hreading
      rcases hmoves.reading? turn part with hold | ⟨-, hnew⟩
      · exact hreadings part reading (hold ▸ hreading)
      · rw [hnew, Document.read_of_buffers? hb'] at hreading
        exact (Option.some.inj hreading).symm
    | drop _ =>
      refine ⟨(buffers?_dropQueued _).trans hb', ?_⟩
      intro part reading hreading
      rw [reading?_dropQueued] at hreading
      exact hreadings part reading hreading

end Lane

/-- Whatever a request has read in a run, the document said at some moment of the run. -/
theorem Workspace.Run.reading? {parser : Parser} {rule : Nat → TouchRule} {w w' : Workspace}
    (hrun : Run parser rule w w') {id : Nat} {l l' : Lane} (hl : w.lanes.get? id = some l)
    (hl' : w'.lanes.get? id = some l') {turn part : Nat} (hunread : l.reading? turn part = none)
    {reading : Reading} (hreading : l'.reading? turn part = some reading) :
    ∃ v d, Run parser rule w v ∧ Run parser rule v w' ∧ v.document? id = some d ∧
      reading = (d.read part).1 := by
  induction hrun generalizing l' with
  | refl =>
    obtain rfl := Option.some.inj (hl.symm.trans hl')
    rw [hunread] at hreading
    cases hreading
  | @tail u w' hinit step ih =>
    -- The reading was there before the last step, or it is what the document said at that step.
    obtain ⟨m, hm, -⟩ := Run.lane hinit hl
    have hearlier : m.reading? turn part = some reading →
        ∃ v d, Run parser rule w v ∧ Run parser rule v w' ∧ v.document? id = some d ∧
          reading = (d.read part).1 := by
      intro hread
      obtain ⟨v, d, hv, hv', hd, heq⟩ := ih hm hread
      exact ⟨v, d, hv, hv'.tail step, hd, heq⟩
    rcases step.lane_cases id with ⟨hnone, -⟩ | hsame | ⟨a, a', ha, ha', hstep⟩
    · rw [hm] at hnone
      cases hnone
    · obtain rfl := Option.some.inj (hl'.symm.trans (hsame.trans hm))
      exact hearlier hreading
    · obtain rfl := Option.some.inj (hm.symm.trans ha)
      obtain rfl := Option.some.inj (hl'.symm.trans ha')
      rcases Lane.reading?_step hstep turn part with hold | hnew
      · exact hearlier (hold.symm.trans hreading)
      · refine ⟨u, m.document, hinit, .single step, ?_, ?_⟩
        · rw [document?, hm]
          rfl
        · exact Option.some.inj (hreading.symm.trans hnew)

end Reparse
