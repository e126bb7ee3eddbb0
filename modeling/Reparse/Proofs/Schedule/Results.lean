import Reparse.Proofs.Schedule.Order

/-!
What the requests for a document have come to. A result is known from the step on in which its
request concludes; a step adds at most one result, and a result that is known never changes.
-/

namespace Reparse

open Relation

theorem Stage.outcome?_eq_some_iff {s : Stage} {outcome : Outcome} :
    s.outcome? = some outcome ↔ s = .concluded outcome := by
  cases s <;> simp [Stage.outcome?]

theorem Stage.isActive_of_concluded {s : Stage} {outcome : Outcome} (h : s = .concluded outcome) :
    s.isActive = true := by
  rw [h]
  rfl

namespace Lane

variable {parser : Parser} {rule : TouchRule} {l l' : Lane} {r : Request}

/-- The request that has concluded and has not delivered yet, with what it has come to. -/
def concluding? (l : Lane) : Option (Nat × Outcome) :=
  l.requests.findSome? fun r => r.stage.outcome?.map (r.turn, ·)

/-- All requests that have come to a result, newest first. -/
def results (l : Lane) : List (Nat × Outcome) :=
  l.concluding?.toList ++ l.mailbox

/-- The receipt of the newest of the requests that have succeeded. -/
def lastSuccess? (l : Lane) : Option Receipt :=
  l.results.findSome? fun e => e.2.toOption

theorem Chained.concluding?_eq_some_iff (h : l.Chained) {turn : Nat} {outcome : Outcome} :
    l.concluding? = some (turn, outcome) ↔
      ∃ r, l.request? turn = some r ∧ r.stage = .concluded outcome := by
  have sound : ∀ {turn outcome}, l.concluding? = some (turn, outcome) →
      ∃ r, l.request? turn = some r ∧ r.stage = .concluded outcome := by
    intro turn outcome hfound
    obtain ⟨r, hr, hout⟩ := List.exists_of_findSome?_eq_some hfound
    obtain ⟨o, ho, heq⟩ := Option.map_eq_some_iff.1 hout
    cases heq
    exact ⟨r, h.numbered.request?_eq hr, Stage.outcome?_eq_some_iff.1 ho⟩
  refine ⟨sound, ?_⟩
  rintro ⟨r, hr, hstage⟩
  cases hfound : l.concluding? with
  | none =>
    have hnone := List.findSome?_eq_none_iff.1 hfound r (mem_of_request? hr)
    rw [hstage] at hnone
    cases hnone
  | some found =>
    obtain ⟨other, result⟩ := found
    obtain ⟨s, hs, hsstage⟩ := sound hfound
    have hturn := h.eq_of_isActive hr hs (Stage.isActive_of_concluded hstage)
      (Stage.isActive_of_concluded hsstage)
    subst hturn
    obtain rfl := Option.some.inj (hr.symm.trans hs)
    rw [hstage] at hsstage
    cases hsstage
    rfl

/-- While a request is at work and has not concluded, no other one has. -/
theorem Chained.concluding?_eq_none (h : l.Chained) (hr : l.request? r.turn = some r)
    (hactive : r.stage.isActive = true) (hnone : r.stage.outcome? = none) :
    l.concluding? = none := by
  cases hfound : l.concluding? with
  | none => rfl
  | some found =>
    obtain ⟨t, outcome⟩ := found
    obtain ⟨s, hs, hstage⟩ := h.concluding?_eq_some_iff.1 hfound
    have hturn := h.eq_of_isActive hr hs hactive (Stage.isActive_of_concluded hstage)
    subst hturn
    obtain rfl := Option.some.inj (hr.symm.trans hs)
    rw [hstage] at hnone
    cases hnone

/-- A step of a request adds the result to which it moves on, and no other one. -/
theorem Moves.results (h : l.Moves parser r l') (hl : l.Chained) (hr : l.request? r.turn = some r)
    {stage : Stage} (hself : l'.request? r.turn = some { r with stage }) :
    l'.results = (stage.outcome?.map (r.turn, ·)).toList ++ l.results := by
  have hl' := hl.moves hr h
  obtain ⟨next, hnext, -, hself', hother⟩ := h.request? hr
  have hmailbox := h.mailbox
  obtain rfl : next = stage :=
    congrArg Request.stage (Option.some.inj (hself'.symm.trans hself))
  -- Between stages without a result the one that is concluding stays who it is.
  have hkept : r.stage.outcome? = none → next.outcome? = none →
      l'.concluding? = l.concluding? := by
    intro hbefore hafter
    apply Option.ext
    rintro ⟨t, outcome⟩
    rw [hl'.concluding?_eq_some_iff, hl.concluding?_eq_some_iff]
    by_cases ht : t = r.turn
    · subst ht
      rw [hself, hr]
      constructor
      · rintro ⟨s, hs, hstage⟩
        obtain rfl := Option.some.inj hs
        rw [Stage.outcome?_eq_some_iff.2 hstage] at hafter
        cases hafter
      · rintro ⟨s, hs, hstage⟩
        obtain rfl := Option.some.inj hs
        rw [Stage.outcome?_eq_some_iff.2 hstage] at hbefore
        cases hbefore
    · rw [hother t ht]
  unfold Lane.results
  generalize hstage : r.stage = s at *
  cases hnext with
  | start job => rw [hkept rfl rfl, hmailbox]; rfl
  | goOn job job' => rw [hkept rfl rfl, hmailbox]; rfl
  | conclude job outcome =>
    rw [hl'.concluding?_eq_some_iff.2 ⟨_, hself, rfl⟩, hmailbox,
      hl.concluding?_eq_none hr (by rw [hstage]; rfl) (by rw [hstage]; rfl)]
    rfl
  | deliver outcome =>
    rw [hl.concluding?_eq_some_iff.2 ⟨r, hr, hstage⟩, hmailbox,
      hl'.concluding?_eq_none (r := { r with stage := .delivered }) hself rfl rfl]
    rfl
  | signal => rw [hkept rfl rfl, hmailbox]; rfl
  | finish => rw [hkept rfl rfl, hmailbox]; rfl

theorem results_accept (l : Lane) (options : Options) :
    (l.accept options).1.results = l.results := by
  simp [results, concluding?, accept, List.findSome?_append, Stage.outcome?]

theorem mailbox_foldl_drop (turns : List Nat) (l : Lane) :
    (turns.foldl drop l).mailbox =
      turns.reverse.map (·, .error .cancelled) ++ l.mailbox := by
  induction turns generalizing l with
  | nil => rfl
  | cons t turns ih =>
    have hstep : (l.drop t).mailbox = (t, .error .cancelled) :: l.mailbox := rfl
    rw [List.foldl_cons, ih, hstep]
    simp

/-- A shutdown adds nothing to the results but that the queued requests have been cancelled. -/
theorem results_dropQueued (hidle : ∀ r ∈ l.requests, r.stage.isUnderWay = false) :
    l.dropQueued.results = l.queued.reverse.map (·, .error .cancelled) ++ l.results := by
  have hnone : ∀ r ∈ l.requests, r.stage.outcome? = none := by
    intro r hr
    have hstage := hidle r hr
    cases hcase : r.stage with
    | concluded outcome =>
      rw [hcase] at hstage
      cases hstage
    | _ => rfl
  have hbefore : l.concluding? = none := by
    apply List.findSome?_eq_none_iff.2
    intro r hr
    rw [hnone r hr]
    rfl
  have hafter : l.dropQueued.concluding? = none := by
    apply List.findSome?_eq_none_iff.2
    unfold dropQueued
    rw [requests_foldl_drop]
    intro s hs
    obtain ⟨r, hr, rfl⟩ := List.mem_map.1 hs
    split
    · rfl
    · rw [hnone r hr]
      rfl
  unfold results
  rw [hbefore, hafter]
  exact mailbox_foldl_drop l.queued l

/-! ## Results last -/

theorem Chained.outcome?_eq_none (h : l.Chained) {turn : Nat} (hr : l.request? turn = some r)
    (hstage : r.stage.hasDelivered = false) : l.outcome? turn = none := by
  rw [h.delivered turn r hr] at hstage
  simpa using hstage

theorem Chained.result?_eq_some_iff (h : l.Chained) {turn : Nat} {outcome : Outcome} :
    l.result? turn = some outcome ↔
      l.outcome? turn = some outcome ∨
        ∃ r, l.request? turn = some r ∧ r.stage = .concluded outcome := by
  unfold result?
  constructor
  · intro hres
    rcases Option.or_eq_some_iff.1 hres with hout | ⟨-, hstage⟩
    · exact .inl hout
    · obtain ⟨r, hr, hstage⟩ := Option.bind_eq_some_iff.1 hstage
      exact .inr ⟨r, hr, Stage.outcome?_eq_some_iff.1 hstage⟩
  · rintro (hout | ⟨r, hr, hstage⟩)
    · rw [hout, Option.some_or]
    · rw [h.outcome?_eq_none hr (by rw [hstage]; rfl), Option.none_or, hr, Option.bind_some, hstage]
      rfl

theorem Chained.result?_of_running (h : l.Chained) (hr : l.request? r.turn = some r) {job : Job}
    (hstage : r.stage = .running job) : l.result? r.turn = none := by
  unfold result?
  rw [h.outcome?_eq_none hr (by rw [hstage]; rfl), hr, Option.bind_some, hstage]
  rfl

theorem result?_accept (l : Lane) (options : Options) (turn : Nat) :
    (l.accept options).1.result? turn = l.result? turn := by
  have hout : (l.accept options).1.outcome? turn = l.outcome? turn := rfl
  unfold result?
  rw [hout, request?_accept]
  cases l.request? turn with
  | some r => rfl
  | none =>
    rw [Option.none_or]
    split <;> rfl

/-- A request that moves on has come to what its new stage says, and to what it had come to. -/
theorem Moves.result? (h : l.Moves parser r l') (hl : l.Chained) (hr : l.request? r.turn = some r)
    {stage : Stage} (hself : l'.request? r.turn = some { r with stage }) (turn : Nat) :
    l'.result? turn =
      if turn = r.turn then stage.outcome?.or (l.result? turn) else l.result? turn := by
  obtain ⟨next, hnext, -, hself', hother⟩ := h.request? hr
  obtain rfl : next = stage :=
    congrArg Request.stage (Option.some.inj (hself'.symm.trans hself))
  unfold Lane.result?
  rw [h.outcome? turn]
  by_cases heq : turn = r.turn
  · subst heq
    rw [if_pos rfl, if_pos rfl, hself, hr, Option.bind_some, Option.bind_some]
    have hnone := hl.outcome?_eq_none hr
    generalize hstage : r.stage = s at *
    cases hnext with
    | start job => simp [Stage.outcome?]
    | goOn job job' => simp [Stage.outcome?]
    | conclude job outcome => simp [Stage.outcome?, hnone rfl]
    | deliver outcome => simp [Stage.outcome?, hnone rfl]
    | signal => simp [Stage.outcome?]
    | finish => simp [Stage.outcome?]
  · rw [if_neg heq, if_neg heq, hother turn heq]

/-- Whoever is dropped has not succeeded. -/
theorem Chained.success_of_dropQueued (h : l.Chained) {turn : Nat} {receipt : Receipt}
    (hres : l.dropQueued.result? turn = some (.ok receipt)) :
    l.result? turn = some (.ok receipt) := by
  have hout : l.dropQueued.outcome? turn =
      if turn ∈ l.queued then some (.error .cancelled) else l.outcome? turn :=
    outcome?_foldl_drop l.queued l turn
  unfold result? at hres ⊢
  rw [hout, h.numbered.request?_dropQueued] at hres
  split at hres
  · cases hres
  · cases hr : l.request? turn with
    | none => simpa [hr] using hres
    | some r =>
      rw [hr, Option.map_some, Option.bind_some] at hres
      split at hres
      · simp only [Stage.outcome?, Option.or_none] at hres
        rw [hres]
        rfl
      · exact hres

/-- What a request has come to, it has come to for good. -/
theorem Chained.result?_step (h : l.Chained) (hstep : Lane.Step parser rule l l') {turn : Nat}
    {outcome : Outcome} (hres : l.result? turn = some outcome) :
    l'.result? turn = some outcome := by
  have hl' := h.step hstep
  rw [h.result?_eq_some_iff] at hres
  rw [hl'.result?_eq_some_iff]
  cases hstep with
  | touch t _ => exact hres
  | accept options =>
    rcases hres with hout | ⟨r, hr, hstage⟩
    · exact .inl hout
    · exact .inr ⟨r, request?_accept_of_some hr options, hstage⟩
  | advance hadvance =>
    obtain ⟨r, hr, hmoves⟩ := advance_moves hadvance
    obtain rfl := turn_of_request? hr
    obtain ⟨-, -, -, -, hother⟩ := hmoves.request? hr
    by_cases heq : turn = r.turn
    · -- A request that has come to a result either delivers it now or has delivered it before.
      left
      subst heq
      rw [hmoves.outcome? r.turn, if_pos rfl]
      rcases hres with hout | ⟨s, hs, hstage⟩
      · have hnone : r.stage.outcome? = none := by
          cases hcase : r.stage with
          | concluded other =>
            rw [h.outcome?_eq_none hr (by rw [hcase]; rfl)] at hout
            cases hout
          | _ => rfl
        rw [hnone, hout, Option.none_or]
      · obtain rfl := Option.some.inj (hr.symm.trans hs)
        rw [hstage]
        rfl
    · rw [hmoves.outcome? turn, if_neg heq, hother turn heq]
      exact hres
  | drop hidle =>
    left
    unfold dropQueued
    rw [outcome?_foldl_drop]
    rcases hres with hout | ⟨r, hr, hstage⟩
    · rw [if_neg, hout]
      intro hqueued
      obtain ⟨r, hr, hstage⟩ := h.numbered.mem_queued_iff.1 hqueued
      rw [h.outcome?_eq_none hr (by rw [hstage]; rfl)] at hout
      cases hout
    · have hunder := hidle r (mem_of_request? hr)
      rw [hstage] at hunder
      cases hunder

theorem Chained.result?_run (h : l.Chained) (hrun : Lane.Run parser rule l l') {turn : Nat}
    {outcome : Outcome} (hres : l.result? turn = some outcome) :
    l'.result? turn = some outcome := by
  induction hrun with
  | refl => exact hres
  | tail hinit hstep ih => exact (h.run hinit).result?_step hstep ih

theorem Chained.mem_results_step (h : l.Chained) (hstep : Lane.Step parser rule l l') {turn : Nat}
    {outcome : Outcome} (hmem : (turn, outcome) ∈ l'.results) :
    (turn, outcome) ∈ l.results ∨ l'.result? turn = some outcome := by
  have hl' := h.step hstep
  cases hstep with
  | touch t _ => exact .inl hmem
  | accept options =>
    rw [results_accept] at hmem
    exact .inl hmem
  | advance hadvance =>
    obtain ⟨r, hr, hmoves⟩ := advance_moves hadvance
    obtain rfl := turn_of_request? hr
    obtain ⟨stage, -, -, hself, -⟩ := hmoves.request? hr
    rw [hmoves.results h hr hself] at hmem
    rcases List.mem_append.1 hmem with hnew | hold
    · right
      obtain ⟨o, ho, heq⟩ := Option.map_eq_some_iff.1 (Option.mem_toList.1 hnew)
      cases heq
      exact hl'.result?_eq_some_iff.2 (.inr ⟨_, hself, Stage.outcome?_eq_some_iff.1 ho⟩)
    · exact .inl hold
  | drop hidle =>
    rw [results_dropQueued hidle] at hmem
    rcases List.mem_append.1 hmem with hnew | hold
    · right
      obtain ⟨t, ht, heq⟩ := List.mem_map.1 hnew
      cases heq
      refine hl'.result?_eq_some_iff.2 (.inl ?_)
      unfold dropQueued
      rw [outcome?_foldl_drop, if_pos (List.mem_reverse.1 ht)]
    · exact .inl hold

/-- Every result in the list is that of the request it is listed under. -/
theorem Reachable.result?_of_mem_results (h : l.Reachable parser rule) {turn : Nat}
    {outcome : Outcome} (hmem : (turn, outcome) ∈ l.results) : l.result? turn = some outcome := by
  obtain ⟨d, hnew, hrun⟩ := h
  induction hrun with
  | refl => cases hmem
  | tail hinit hstep ih =>
    have hchain := (chained_ofDocument d).run hinit
    rcases hchain.mem_results_step hstep hmem with hold | hres
    · exact hchain.result?_step hstep (ih hold)
    · exact hres

end Lane

end Reparse
