import Reparse.Proofs.Schedule.Step

/-!
The order of the requests for one document. A request knows no more than the one accepted right
before it; `Lane.Chained` is what this comes to over a whole history: whoever has started has only
requests in front that have signalled. From it follows that no two requests for a document are at
work at once, and that results are delivered in the order of acceptance.
-/

namespace Reparse

open Relation

namespace Stage

theorem hasDelivered_of_hasSignalled {s : Stage} (h : s.hasSignalled = true) :
    s.hasDelivered = true := by
  cases s <;> first | rfl | cases h

theorem not_isQueued_of_hasSignalled {s : Stage} (h : s.hasSignalled = true) :
    s.isQueued = false := by
  cases s <;> first | rfl | cases h

theorem Next.hasSignalled {s s' : Stage} (h : s.Next s') (hs : s.hasSignalled = true) :
    s'.hasSignalled = true := by
  cases h <;> first | rfl | cases hs

theorem Next.hasDelivered {s s' : Stage} (h : s.Next s') :
    s'.hasDelivered = (s.outcome?.isSome || s.hasDelivered) := by
  cases h <;> rfl

end Stage

namespace Lane

variable {parser : Parser} {rule : TouchRule} {l l' : Lane} {r : Request}

/-- Every request follows the one before it, and whoever has started has only requests in front
that have signalled; who has delivered is who has a result in the mailbox. -/
structure Chained (l : Lane) : Prop where
  numbered : l.Numbered
  tail : l.tail = if l.requests.length = 0 then none else some l.requests.length
  after : ∀ t r, l.request? t = some r → r.after = if t = 1 then none else some (t - 1)
  order : ∀ t u r s, t < u → l.request? t = some r → l.request? u = some s →
    s.stage.isQueued = true ∨ r.stage.hasSignalled = true
  delivered : ∀ t r, l.request? t = some r → r.stage.hasDelivered = (l.outcome? t).isSome
  mailbox : ∀ t, l.request? t = none → l.outcome? t = none

theorem Chained.one_le (h : l.Chained) {t : Nat} (hr : l.request? t = some r) : 1 ≤ t := by
  have hle := (h.numbered.turn_le (mem_of_request? hr)).1
  rwa [turn_of_request? hr] at hle

theorem Numbered.request?_length (h : l.Numbered) : l.request? (l.requests.length + 1) = none := by
  cases hr : l.request? (l.requests.length + 1) with
  | none => rfl
  | some r =>
    have hle := (h.turn_le (mem_of_request? hr)).2
    rw [turn_of_request? hr] at hle
    omega

/-- The request that has just been accepted. -/
theorem Numbered.request?_accept_new (h : l.Numbered) (options : Options) :
    (l.accept options).1.request? (l.requests.length + 1) =
      some ⟨l.requests.length + 1, options, l.tail, .queued⟩ := by
  rw [request?_accept, h.request?_length, Option.none_or, if_pos rfl]

theorem request?_ofDocument (d : Document) (turn : Nat) : (ofDocument d).request? turn = none := rfl

theorem chained_ofDocument (d : Document) : (ofDocument d).Chained := by
  refine ⟨rfl, rfl, ?_, ?_, ?_, fun _ _ => rfl⟩
  · intro t r hr
    rw [request?_ofDocument] at hr
    cases hr
  · intro t u r s _ hr _
    rw [request?_ofDocument] at hr
    cases hr
  · intro t r hr
    rw [request?_ofDocument] at hr
    cases hr

/-! ## Each step keeps the chain -/

theorem Chained.mapDocument (h : l.Chained) (f : Document → Document) :
    (l.mapDocument f).Chained where
  numbered := h.numbered
  tail := h.tail
  after := h.after
  order := h.order
  delivered := h.delivered
  mailbox := h.mailbox

theorem Chained.accept (h : l.Chained) (options : Options) : (l.accept options).1.Chained where
  numbered := h.numbered.accept options
  tail := by simp [Lane.accept]
  after := by
    intro t r hr
    rcases of_request?_accept hr with hold | ⟨rfl, rfl⟩
    · exact h.after t r hold
    · dsimp only
      rw [h.tail]
      simp
  order := by
    intro t u r s htu hr hs
    rcases of_request?_accept hs with hs | ⟨rfl, rfl⟩
    · rcases of_request?_accept hr with hr | ⟨rfl, rfl⟩
      · exact h.order t u r s htu hr hs
      · have hle := (h.numbered.turn_le (mem_of_request? hs)).2
        rw [turn_of_request? hs] at hle
        omega
    · exact .inl rfl
  delivered := by
    intro t r hr
    rcases of_request?_accept hr with hold | ⟨rfl, rfl⟩
    · exact h.delivered t r hold
    · have hnone : l.outcome? (l.requests.length + 1) = none :=
        h.mailbox _ h.numbered.request?_length
      exact (congrArg Option.isSome hnone).symm
  mailbox := by
    intro t ht
    rw [request?_accept] at ht
    exact h.mailbox t (Option.or_eq_none_iff.1 ht).1

/-- The mailbox after a step of a request. -/
theorem Moves.outcome? (h : l.Moves parser r l') (turn : Nat) :
    l'.outcome? turn =
      if turn = r.turn then r.stage.outcome?.or (l.outcome? turn) else l.outcome? turn := by
  unfold Lane.outcome?
  rw [h.mailbox]
  cases hout : r.stage.outcome? with
  | none => simp
  | some outcome =>
    by_cases heq : turn = r.turn
    · simp [heq]
    · have hbeq : (turn == r.turn) = false := by simpa using heq
      simp [List.lookup_cons, hbeq, heq]

/-- The requests after a step of one of them. -/
theorem Moves.request? (h : l.Moves parser r l') (hr : l.request? r.turn = some r) :
    ∃ stage, r.stage.Next stage ∧ (r.stage = .queued → l.released r.after = true) ∧
      l'.request? r.turn = some { r with stage } ∧
      ∀ turn, turn ≠ r.turn → l'.request? turn = l.request? turn := by
  obtain ⟨stage, hnext, hreleased, hrequests, -⟩ := h.stage
  have hview : ∀ turn, l'.request? turn = (l.setStage r.turn stage).request? turn := by
    intro turn
    unfold Lane.request?
    rw [hrequests]
  refine ⟨stage, hnext, hreleased, ?_, ?_⟩
  · rw [hview, request?_setStage_self hr]
  · intro turn hne
    rw [hview, request?_setStage_of_ne hne]

theorem Moves.numbered (h : l.Moves parser r l') (hl : l.Numbered) : l'.Numbered := by
  obtain ⟨stage, -, -, hrequests, -⟩ := h.stage
  have hkept := hl.setStage r.turn stage
  unfold Numbered at hkept ⊢
  rwa [hrequests]

/-- A request is released only when all requests in front of it have signalled. -/
theorem Chained.signalled_of_released (h : l.Chained) {t u : Nat} {r s : Request} (htu : t < u)
    (hr : l.request? t = some r) (hs : l.request? u = some s)
    (hreleased : l.released s.after = true) : r.stage.hasSignalled = true := by
  have hpos := h.one_le hr
  rw [h.after u s hs, if_neg (by omega)] at hreleased
  obtain ⟨p, hp, hsignalled⟩ : ∃ p, l.request? (u - 1) = some p ∧ p.stage.hasSignalled = true := by
    simpa [released, Option.any_eq_true] using hreleased
  -- The request right in front has signalled, so it has started, and the chain reaches further.
  by_cases hprev : t = u - 1
  · subst hprev
    obtain rfl := Option.some.inj (hr.symm.trans hp)
    exact hsignalled
  · have hfront := h.order t (u - 1) r p (by omega) hr hp
    rw [Stage.not_isQueued_of_hasSignalled hsignalled] at hfront
    exact hfront.resolve_left Bool.false_ne_true

theorem Chained.moves (h : l.Chained) (hr : l.request? r.turn = some r)
    (hmoves : l.Moves parser r l') : l'.Chained := by
  obtain ⟨stage, hnext, hreleased, hself, hother⟩ := hmoves.request? hr
  obtain ⟨_, -, -, hrequests, htail⟩ := hmoves.stage
  refine ⟨hmoves.numbered h.numbered, ?_, ?_, ?_, ?_, ?_⟩
  · rw [htail, h.tail, hrequests]
    simp [Lane.setStage]
  · intro t s hs
    by_cases heq : t = r.turn
    · subst heq
      obtain rfl := Option.some.inj (hs.symm.trans hself)
      exact h.after r.turn r hr
    · exact h.after t s (hother t heq ▸ hs)
  · intro t u a b htu ha hb
    by_cases hu : u = r.turn
    · -- The request that moves is the later one, so it is queued no more.
      subst hu
      right
      rw [hother t (by omega)] at ha
      rcases h.order t r.turn a r htu ha hr with hqueued | hsignalled
      · exact h.signalled_of_released htu ha hr (hreleased (Stage.isQueued_iff.1 hqueued))
      · exact hsignalled
    · -- The later one stays as it is, and the earlier one never takes a signal back.
      rw [hother u hu] at hb
      by_cases ht : t = r.turn
      · subst ht
        obtain rfl := Option.some.inj (ha.symm.trans hself)
        exact (h.order r.turn u r b htu hr hb).imp id hnext.hasSignalled
      · rw [hother t ht] at ha
        exact h.order t u a b htu ha hb
  · intro t s hs
    rw [hmoves.outcome? t]
    by_cases heq : t = r.turn
    · subst heq
      obtain rfl := Option.some.inj (hs.symm.trans hself)
      rw [if_pos rfl, Option.isSome_or, ← h.delivered r.turn r hr]
      exact hnext.hasDelivered
    · rw [if_neg heq]
      exact h.delivered t s (hother t heq ▸ hs)
  · intro t ht
    have hne : t ≠ r.turn := by
      rintro rfl
      rw [hself] at ht
      cases ht
    rw [hmoves.outcome? t, if_neg hne]
    exact h.mailbox t (hother t hne ▸ ht)

/-- Where no request is under way, dropping the queued ones finishes all. -/
theorem Chained.drop (h : l.Chained) (hidle : ∀ r ∈ l.requests, r.stage.isUnderWay = false) :
    l.dropQueued.Chained := by
  have hfinished : ∀ t r, l.dropQueued.request? t = some r →
      ∃ s, l.request? t = some s ∧ r = { s with stage := .finished } := by
    intro t r hr
    rw [h.numbered.request?_dropQueued] at hr
    obtain ⟨s, hs, rfl⟩ := Option.map_eq_some_iff.1 hr
    refine ⟨s, hs, ?_⟩
    have hstage := hidle s (mem_of_request? hs)
    cases hcase : s.stage <;> simp_all [Stage.isUnderWay, Stage.isQueued, Stage.isFinished]
    rw [← hcase]
  have hlength : l.dropQueued.requests.length = l.requests.length := by
    unfold dropQueued
    rw [requests_foldl_drop, List.length_map]
  refine ⟨?_, ?_, ?_, ?_, ?_, ?_⟩
  · unfold Numbered
    rw [hlength, ← h.numbered]
    unfold dropQueued
    rw [requests_foldl_drop, List.map_map]
    congr 1
    funext r
    simp only [Function.comp]
    split <;> rfl
  · rw [hlength, ← h.tail]
    exact tail_foldl_drop l.queued l
  · intro t r hr
    obtain ⟨s, hs, rfl⟩ := hfinished t r hr
    exact h.after t s hs
  · intro t u r s _ hr _
    obtain ⟨a, -, rfl⟩ := hfinished t r hr
    exact .inr rfl
  · intro t r hr
    obtain ⟨s, hs, rfl⟩ := hfinished t r hr
    have hbox : (l.dropQueued.outcome? t).isSome = true := by
      unfold dropQueued
      rw [outcome?_foldl_drop]
      split
      · rfl
      · rename_i hnot
        rw [← h.delivered t s hs]
        have hstarted : s.stage ≠ .queued := by
          intro hqueued
          exact hnot (h.numbered.mem_queued_iff.2 ⟨s, hs, hqueued⟩)
        have hstage := hidle s (mem_of_request? hs)
        cases hcase : s.stage <;>
          simp_all [Stage.isUnderWay, Stage.isQueued, Stage.isFinished, Stage.hasDelivered]
    rw [hbox]
    rfl
  · intro t ht
    rw [h.numbered.request?_dropQueued, Option.map_eq_none_iff] at ht
    unfold dropQueued
    rw [outcome?_foldl_drop, if_neg, h.mailbox t ht]
    intro hmem
    obtain ⟨r, hr, -⟩ := h.numbered.mem_queued_iff.1 hmem
    rw [ht] at hr
    cases hr

theorem Chained.step (h : l.Chained) (hstep : Lane.Step parser rule l l') : l'.Chained := by
  cases hstep with
  | touch t _ => exact h.mapDocument _
  | accept options => exact h.accept options
  | advance hadvance =>
    obtain ⟨r, hr, hmoves⟩ := advance_moves hadvance
    exact h.moves (turn_of_request? hr ▸ hr) hmoves
  | drop hidle => exact h.drop hidle

theorem Chained.run (h : l.Chained) (hrun : Lane.Run parser rule l l') : l'.Chained := by
  induction hrun with
  | refl => exact h
  | tail _ hstep ih => exact ih.step hstep

theorem Reachable.chained (h : l.Reachable parser rule) : l.Chained := by
  obtain ⟨d, -, hrun⟩ := h
  exact (chained_ofDocument d).run hrun

/-- A request that has been accepted stays what it is, and only its stage changes. -/
theorem Chained.request?_step (h : l.Chained) (hstep : Lane.Step parser rule l l') {turn : Nat}
    (hr : l.request? turn = some r) : ∃ stage, l'.request? turn = some { r with stage } := by
  cases hstep with
  | touch t _ => exact ⟨r.stage, hr⟩
  | accept options => exact ⟨r.stage, request?_accept_of_some hr options⟩
  | advance hadvance =>
    obtain ⟨s, hs, hmoves⟩ := advance_moves hadvance
    obtain rfl := turn_of_request? hs
    obtain ⟨stage, -, -, hself, hother⟩ := hmoves.request? hs
    by_cases heq : turn = s.turn
    · subst heq
      obtain rfl := Option.some.inj (hr.symm.trans hs)
      exact ⟨stage, hself⟩
    · exact ⟨r.stage, (hother turn heq).trans hr⟩
  | drop _ =>
    rw [h.numbered.request?_dropQueued, hr, Option.map_some]
    split
    · exact ⟨_, rfl⟩
    · exact ⟨r.stage, rfl⟩

theorem Chained.request?_run (h : l.Chained) (hrun : Lane.Run parser rule l l') {turn : Nat}
    (hr : l.request? turn = some r) : ∃ stage, l'.request? turn = some { r with stage } := by
  induction hrun with
  | refl => exact ⟨r.stage, hr⟩
  | tail hinit hstep ih =>
    obtain ⟨stage, hmid⟩ := ih
    obtain ⟨stage', hlast⟩ := (h.run hinit).request?_step hstep hmid
    exact ⟨stage', hlast⟩

/-! ## What the chain gives -/

/-- At most one request is between its start and its completion. -/
theorem Chained.eq_of_isActive (h : l.Chained) {t u : Nat} {r s : Request}
    (hr : l.request? t = some r) (hs : l.request? u = some s) (hra : r.stage.isActive = true)
    (hsa : s.stage.isActive = true) : t = u := by
  simp only [Stage.isActive, Bool.and_eq_true, Bool.not_eq_true'] at hra hsa
  rcases Nat.lt_trichotomy t u with hlt | heq | hgt
  · rcases h.order t u r s hlt hr hs with hqueued | hsignalled
    · rw [hsa.1] at hqueued
      cases hqueued
    · rw [hra.2] at hsignalled
      cases hsignalled
  · exact heq
  · rcases h.order u t s r hgt hs hr with hqueued | hsignalled
    · rw [hra.1] at hqueued
      cases hqueued
    · rw [hsa.2] at hsignalled
      cases hsignalled

/-- Whoever has started has only requests in front that have delivered. -/
theorem Chained.delivered_of_started (h : l.Chained) {t u : Nat} {r s : Request} (htu : t < u)
    (hr : l.request? t = some r) (hs : l.request? u = some s)
    (hstarted : s.stage.isQueued = false) : (l.outcome? t).isSome = true := by
  rw [← h.delivered t r hr]
  rcases h.order t u r s htu hr hs with hqueued | hsignalled
  · rw [hstarted] at hqueued
    cases hqueued
  · exact Stage.hasDelivered_of_hasSignalled hsignalled

end Lane

namespace Workspace

/-- In every reachable workspace, at most one request for a document is between its start and its
completion, whoever has started comes after none that has not delivered, and whoever is accepted
next comes after all. -/
theorem requests_one_by_one_in_order {parser : Parser} {rule : Nat → TouchRule} {w : Workspace}
    (h : Reachable parser rule w) {id : Nat} {l : Lane} (hl : w.lanes.get? id = some l) :
    (∀ r ∈ l.requests, ∀ s ∈ l.requests,
      r.stage.isActive = true → s.stage.isActive = true → r = s) ∧
    (∀ r ∈ l.requests, ∀ s ∈ l.requests, r.turn < s.turn → s.stage.isQueued = false →
      (w.outcome? ⟨id, r.turn⟩).isSome = true) ∧
    (∀ version, ∃ ticket, (w.enqueue (some id) version true).2 = .ok ticket ∧
      ticket.document = id ∧ ∀ r ∈ l.requests, r.turn < ticket.turn) := by
  have hchain := (h.lane hl).chained
  refine ⟨?_, ?_, ?_⟩
  · intro r hr s hs hra hsa
    have hr' := hchain.numbered.request?_eq hr
    have hs' := hchain.numbered.request?_eq hs
    have hturn := hchain.eq_of_isActive hr' hs' hra hsa
    rw [hturn] at hr'
    exact Option.some.inj (hr'.symm.trans hs')
  · intro r hr s hs hlt hstarted
    have hbox := hchain.delivered_of_started hlt (hchain.numbered.request?_eq hr)
      (hchain.numbered.request?_eq hs) hstarted
    rwa [outcome?_of_get? hl]
  · intro version
    refine ⟨⟨id, l.requests.length + 1⟩, ?_, rfl, ?_⟩
    · simp [enqueue, hl, Lane.accept]
    · intro r hr
      exact Nat.lt_succ_of_le (hchain.numbered.turn_le hr).2

/-- Two requests for one document: the first has come to its end, and the second has started. -/
def handover : Workspace :=
  let document : Document := ⟨1, none, none, .project (.buffers .empty) .fresh⟩
  let w := (ofSettings .standard).add document
  let w := w.mapDocument 1 (Touch.apply · (.edit (.set 0 "x".toUTF8)))
  let w := (w.enqueue (some 1) .standard true).1
  let w := (w.enqueue (some 1) .standard true).1
  let w := w.settle .plain ⟨1, 1⟩
  (w.advance .plain ⟨1, 2⟩).getD w

theorem reachable_handover : Reachable .plain (fun _ _ _ => True) handover := by
  refine ⟨.standard, ?_⟩
  unfold handover
  refine ReflTransGen.trans ?_ (run_advance _ _ _ _)
  refine ReflTransGen.trans ?_ (run_settle _ _ _ _)
  refine .tail (.tail ?_ (.enqueue (some 1) .standard true)) (.enqueue (some 1) .standard true)
  refine .tail ?_ (.touch (.edit (.set 0 "x".toUTF8)) rfl trivial)
  exact .single (.add ⟨rfl, rfl⟩ rfl)

theorem handover_in_order : Reachable .plain (fun _ _ _ => True) handover ∧
    ∃ l, handover.lanes.get? 1 = some l ∧
      l.requests.map (fun r => (r.turn, r.stage.isActive)) = [(1, false), (2, true)] ∧
      (∀ r ∈ l.requests, ∀ s ∈ l.requests,
        r.stage.isActive = true → s.stage.isActive = true → r = s) ∧
      (∀ r ∈ l.requests, ∀ s ∈ l.requests, r.turn < s.turn → s.stage.isQueued = false →
        (handover.outcome? ⟨1, r.turn⟩).isSome = true) ∧
      (∀ version, ∃ ticket, (handover.enqueue (some 1) version true).2 = .ok ticket ∧
        ticket.document = 1 ∧ ∀ r ∈ l.requests, r.turn < ticket.turn) :=
  ⟨reachable_handover, _, rfl, rfl, requests_one_by_one_in_order reachable_handover rfl⟩

end Workspace

end Reparse
