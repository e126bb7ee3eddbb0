import Reparse.Proofs.Schedule.Accounting

/-!
No request waits for ever. Whatever has become of the requests in front, the earliest request of a
document that has not finished is released, so it can take a step; and every step brings the end
nearer, by a measure that does not depend on the order of the steps. So requests that are left to
themselves all come to their ends, in whatever order they take their steps.
-/

namespace Reparse

open Relation

/-- The steps that a request has before it at most, in a document with the given number of
parts. -/
def Stage.stepsLeft (parts : Nat) : Stage → Nat
  | queued => parts + 5
  | running (.project todo _ _) => todo.length + 4
  | running .external => 4
  | concluded _ => 3
  | delivered => 2
  | signalled => 1
  | finished => 0

theorem Stage.stepsLeft_eq_zero_iff {parts : Nat} {s : Stage} :
    s.stepsLeft parts = 0 ↔ s = .finished := by
  rcases s with _ | (_ | _) | _ | _ | _ | _ <;> simp [stepsLeft]

theorem Stage.stepsLeft_le {parts : Nat} {s : Stage} (h : s.isUnderWay = false) :
    s.stepsLeft parts ≤ parts + 5 := by
  cases s with
  | queued => exact Nat.le_refl _
  | finished => exact Nat.zero_le _
  | _ => cases h

namespace Lane

variable {parser : Parser} {rule : TouchRule} {l l' : Lane} {r : Request}

/-! ## Who is released -/

theorem Numbered.exists_request? (h : l.Numbered) {turn : Nat} (hone : 1 ≤ turn)
    (hle : turn ≤ l.requests.length) : ∃ r, l.request? turn = some r := by
  have hmem : turn ∈ l.requests.map Request.turn := by
    rw [h, List.mem_range'_1]
    omega
  obtain ⟨r, hr, rfl⟩ := List.mem_map.1 hmem
  exact ⟨r, h.request?_eq hr⟩

/-- A request waits for nobody, or for one that is there. -/
theorem Chained.after_cases (h : l.Chained) (hr : r ∈ l.requests) :
    r.after = none ∨ ∃ p ∈ l.requests, r.after = some p.turn ∧ p.turn < r.turn := by
  have hafter := h.after r.turn r (h.numbered.request?_eq hr)
  obtain ⟨hone, hle⟩ := h.numbered.turn_le hr
  by_cases hfirst : r.turn = 1
  · rw [if_pos hfirst] at hafter
    exact .inl hafter
  · rw [if_neg hfirst] at hafter
    obtain ⟨p, hp⟩ : ∃ p, l.request? (r.turn - 1) = some p :=
      h.numbered.exists_request? (by omega) (by omega)
    have hturn := turn_of_request? hp
    refine .inr ⟨p, mem_of_request? hp, by rw [hafter, hturn], by omega⟩

theorem Chained.released_of_front (h : l.Chained) (hr : r ∈ l.requests)
    (hfront : ∀ s ∈ l.requests, s.turn < r.turn → s.stage.hasSignalled = true) :
    l.released r.after = true := by
  rcases h.after_cases hr with hnone | ⟨p, hp, hafter, hlt⟩
  · rw [hnone]
    rfl
  · rw [hafter]
    simp only [released, h.numbered.request?_eq hp, Option.any_some]
    exact hfront p hp hlt

/-- A request that is released can take a step until it has finished. -/
theorem isSome_advance {turn : Nat} (hr : l.request? turn = some r)
    (hreleased : l.released r.after = true) (hunfinished : r.stage ≠ .finished) :
    (l.advance parser turn).isSome = true := by
  unfold advance
  rw [hr]
  dsimp only
  cases hstage : r.stage with
  | queued =>
    dsimp only
    rw [if_pos hreleased]
    rfl
  | finished => exact absurd hstage hunfinished
  | _ => rfl

theorem advance_of_finished {turn : Nat} (hr : l.request? turn = some r)
    (hfinished : r.stage = .finished) : l.advance parser turn = none := by
  unfold advance
  rw [hr]
  dsimp only
  rw [hfinished]

/-- Among requests that have not finished there is an earliest one. -/
theorem exists_earliest (hr : r ∈ l.requests) (hunfinished : r.stage ≠ .finished) :
    ∃ s ∈ l.requests, s.stage ≠ .finished ∧
      ∀ q ∈ l.requests, q.turn < s.turn → q.stage = .finished := by
  induction hturn : r.turn using Nat.strongRecOn generalizing r with
  | ind turn ih =>
    by_cases hfront : ∀ q ∈ l.requests, q.turn < r.turn → q.stage = .finished
    · exact ⟨r, hr, hunfinished, hfront⟩
    · obtain ⟨q, hq⟩ := Classical.not_forall.1 hfront
      simp only [Classical.not_imp] at hq
      obtain ⟨hmem, hlt, hunfinished'⟩ := hq
      exact ih q.turn (hturn ▸ hlt) hmem hunfinished' rfl

/-! ## Steps that are left -/

/-- The steps that all requests together have before them at most. -/
def stepsLeft (l : Lane) : Nat :=
  l.weigh (Stage.stepsLeft l.document.parts.length)

theorem Moves.parts (h : l.Moves parser r l') : l'.document.parts = l.document.parts := by
  cases h with
  | skip _ _ hreads => exact hreads.parts
  | gather _ _ _ hreads => exact hreads.parts
  | fail _ hkeeps _ => exact (Document.parts_mapLifecycle _ _).trans hkeeps.parts
  | install _ _ => exact l.document.parts_mapLifecycle _
  | hand _ hreads => exact hreads.parts
  | _ => rfl

theorem stepsLeft_firstJob (l : Lane) :
    (Stage.running l.firstJob).stepsLeft l.document.parts.length ≤ l.document.parts.length + 4 := by
  unfold firstJob Document.parts
  cases l.document.body with
  | project store lifecycle => simp [Stage.stepsLeft]
  | external => simp [Stage.stepsLeft]

/-- Every step brings the end of its request nearer. -/
theorem Moves.stepsLeft_lt_stage (h : l.Moves parser r l') (hr : l.request? r.turn = some r)
    {stage : Stage} (hself : l'.request? r.turn = some { r with stage }) :
    stage.stepsLeft l.document.parts.length < r.stage.stepsLeft l.document.parts.length := by
  have key : ∀ next, l'.request? r.turn = some { r with stage := next } →
      next.stepsLeft l.document.parts.length < r.stage.stepsLeft l.document.parts.length →
      stage.stepsLeft l.document.parts.length < r.stage.stepsLeft l.document.parts.length := by
    intro next hnext hlt
    obtain rfl : next = stage :=
      congrArg Request.stage (Option.some.inj (hnext.symm.trans hself))
    exact hlt
  cases h with
  | start hstage _ =>
    refine key _ (request?_setStage_self hr _) ?_
    have hfirst := l.stepsLeft_firstJob
    rw [hstage]
    simp only [Stage.stepsLeft] at hfirst ⊢
    omega
  | skip hstage _ hreads =>
    exact key _ (request?_setStage_self (hreads.request?_eq_some hr) _)
      (by simp [hstage, Stage.stepsLeft])
  | gather hstage _ _ hreads =>
    exact key _ (request?_setStage_self (hreads.request?_eq_some hr) _)
      (by simp [hstage, Stage.stepsLeft])
  | @fail job failure l₁ hstage hkeeps _ =>
    refine key (.concluded (.error failure))
      (request?_setStage_self (hkeeps.request?_eq_some hr) _) ?_
    rw [hstage]
    cases job <;> simp [Stage.stepsLeft]
  | hand hstage hreads =>
    exact key _ (request?_setStage_self (hreads.request?_eq_some hr) _)
      (by simp [hstage, Stage.stepsLeft])
  | install hstage _ =>
    exact key _ (request?_setStage_self hr _) (by simp [hstage, Stage.stepsLeft])
  | deliver hstage =>
    exact key _ (request?_setStage_self hr _) (by simp [hstage, Stage.stepsLeft])
  | signal hstage =>
    exact key _ (request?_setStage_self hr _) (by simp [hstage, Stage.stepsLeft])
  | finish hstage =>
    exact key _ (request?_setStage_self hr _) (by simp [hstage, Stage.stepsLeft])

theorem Moves.stepsLeft_lt (h : l.Moves parser r l') (hl : l.Numbered)
    (hr : l.request? r.turn = some r) : l'.stepsLeft < l.stepsLeft := by
  obtain ⟨stage, -, hself, hweigh⟩ := h.weigh hl hr
  have hlt := h.stepsLeft_lt_stage hr hself
  have hsum := hweigh (Stage.stepsLeft l.document.parts.length)
  unfold stepsLeft
  rw [h.parts]
  omega

end Lane

namespace Workspace

variable {parser : Parser} {rule : Nat → TouchRule} {w w' : Workspace}

/-! ## Drains -/

/-- Steps of requests in the given order, each of which can be taken when its turn comes. -/
def play (parser : Parser) (w : Workspace) (order : List Ticket) : Option Workspace :=
  order.foldlM (fun w t => w.advance parser t) w

/-- Requests are left to themselves, and take their steps in the given order until no request can
take one any more. -/
structure Drains (parser : Parser) (w : Workspace) (order : List Ticket) (w' : Workspace) :
    Prop where
  played : w.play parser order = some w'
  atRest : ∀ t, w'.advance parser t = none

/-- The steps that all requests together have before them at most. -/
def stepsLeft (w : Workspace) : Nat :=
  w.lanes.totalOf Lane.stepsLeft

@[simp]
theorem play_nil (w : Workspace) : w.play parser [] = some w := rfl

@[simp]
theorem play_cons (w : Workspace) (t : Ticket) (order : List Ticket) :
    w.play parser (t :: order) = (w.advance parser t).bind (·.play parser order) := rfl

theorem play_cons_eq_some {t : Ticket} {order : List Ticket} :
    w.play parser (t :: order) = some w' ↔
      ∃ v, w.advance parser t = some v ∧ v.play parser order = some w' := by
  rw [play_cons, Option.bind_eq_some_iff]

theorem play_append (w : Workspace) (order order' : List Ticket) :
    w.play parser (order ++ order') = (w.play parser order).bind (·.play parser order') := by
  simp only [play, List.foldlM_append]
  rfl

theorem run_play {order : List Ticket} (h : w.play parser order = some w') :
    Run parser rule w w' := by
  induction order generalizing w with
  | nil =>
    obtain rfl := Option.some.inj h
    exact .refl
  | cons t order ih =>
    obtain ⟨v, hv, hrest⟩ := play_cons_eq_some.1 h
    exact .head (.advance hv) (ih hrest)

theorem isSome_advance {id turn : Nat} {l : Lane} (hl : w.lanes.get? id = some l)
    (h : (l.advance parser turn).isSome = true) :
    (w.advance parser ⟨id, turn⟩).isSome = true := by
  obtain ⟨l', hl'⟩ := Option.isSome_iff_exists.1 h
  obtain ⟨r, hr, -⟩ := Lane.advance_moves hl'
  simp [advance, hl, hr, hl']

theorem Reachable.stepsLeft_lt (h : Reachable parser rule w) {t : Ticket}
    (hadvance : w.advance parser t = some w') : w'.stepsLeft < w.stepsLeft := by
  obtain ⟨l, l', r, hl, -, hr, hmoves, hlanes, -⟩ := moves_of_advance hadvance
  have hlt := hmoves.stepsLeft_lt (h.lane hl).chained.numbered hr
  have hinsert := NatMap.totalOf_insert_of_some hl l' Lane.stepsLeft
  unfold stepsLeft
  rw [hlanes]
  omega

/-- However requests take their steps, they take no more than are left. -/
theorem Reachable.length_add_stepsLeft_le (h : Reachable parser rule w) {order : List Ticket}
    (hplay : w.play parser order = some w') : order.length + w'.stepsLeft ≤ w.stepsLeft := by
  induction order generalizing w with
  | nil =>
    obtain rfl := Option.some.inj hplay
    simp
  | cons t order ih =>
    obtain ⟨v, hv, hrest⟩ := play_cons_eq_some.1 hplay
    have hlt := h.stepsLeft_lt hv
    have hle := ih (h.run (.single (.advance hv))) hrest
    rw [List.length_cons]
    omega

/-- Requests that are left to themselves come to a rest. -/
theorem Reachable.exists_drains (h : Reachable parser rule w) :
    ∃ order w', Drains parser w order w' := by
  induction hleft : w.stepsLeft using Nat.strongRecOn generalizing w with
  | ind left ih =>
    by_cases hrest : ∀ t, w.advance parser t = none
    · exact ⟨[], w, rfl, hrest⟩
    · obtain ⟨t, ht⟩ := Classical.not_forall.1 hrest
      obtain ⟨v, hv⟩ := Option.ne_none_iff_exists'.1 ht
      have hlt := h.stepsLeft_lt hv
      obtain ⟨order, w', hdrains⟩ :=
        ih v.stepsLeft (hleft ▸ hlt) (h.run (.single (.advance hv))) rfl
      refine ⟨t :: order, w', ?_, hdrains.atRest⟩
      rw [play_cons, hv]
      exact hdrains.played

/-- The earliest of the requests that have not finished can take a step. -/
theorem Reachable.isSome_advance_of_earliest (h : Reachable parser rule w) {id : Nat} {l : Lane}
    (hl : w.lanes.get? id = some l) {r : Request} (hr : r ∈ l.requests)
    (hunfinished : r.stage ≠ .finished)
    (hfront : ∀ s ∈ l.requests, s.turn < r.turn → s.stage = .finished) :
    (w.advance parser ⟨id, r.turn⟩).isSome = true := by
  have hchain := (h.lane hl).chained
  refine isSome_advance hl (Lane.isSome_advance (hchain.numbered.request?_eq hr) ?_ hunfinished)
  apply hchain.released_of_front hr
  intro s hs hlt
  rw [hfront s hs hlt]
  rfl

/-- Where no request can take a step, all have finished. -/
theorem Reachable.finished_of_atRest (h : Reachable parser rule w)
    (hrest : ∀ t, w.advance parser t = none) {id : Nat} {l : Lane}
    (hl : w.lanes.get? id = some l) {r : Request} (hr : r ∈ l.requests) : r.stage = .finished := by
  apply Classical.byContradiction
  intro hunfinished
  obtain ⟨s, hs, hunfinished', hfront⟩ := Lane.exists_earliest hr hunfinished
  have hstep := h.isSome_advance_of_earliest hl hs hunfinished' hfront
  rw [hrest] at hstep
  cases hstep

theorem Reachable.count_eq_zero_iff (h : Reachable parser rule w) :
    w.count = 0 ↔ ∀ id l, w.lanes.get? id = some l → ∀ r ∈ l.requests, r.stage = .finished := by
  constructor
  · intro hzero id l hl r hr
    exact h.finished_of_count_eq_zero hzero hl hr
  · intro hfinished
    rw [h.count_eq]
    apply NatMap.totalOf_eq_zero
    intro id l hl
    rw [Lane.length_unfinished]
    apply total_eq_zero
    intro n hn
    obtain ⟨r, hr, rfl⟩ := List.mem_map.1 hn
    rw [hfinished id l hl r hr]
    rfl

/-! ## Draining one request after the other -/

/-- A request with its stage. -/
def request? (w : Workspace) (t : Ticket) : Option Request :=
  (w.lanes.get? t.document).bind (·.request? t.turn)

theorem request?_of_lane {id : Nat} {l : Lane} (hl : w.lanes.get? id = some l) (turn : Nat) :
    w.request? ⟨id, turn⟩ = l.request? turn := by
  simp [request?, hl]

/-- A request takes a step if it can. -/
def push (parser : Parser) (t : Ticket) (w : Workspace) : Workspace :=
  (w.advance parser t).getD w

theorem settle_eq (w : Workspace) (t : Ticket) :
    w.settle parser t =
      Nat.repeat (push parser t) (((w.lanes.get? t.document).map Lane.stepsPerRequest).getD 0) w :=
  rfl

theorem exists_play_push (parser : Parser) (w : Workspace) (t : Ticket) :
    ∃ order, w.play parser order = some (w.push parser t) := by
  unfold push
  cases hadvance : w.advance parser t with
  | none => exact ⟨[], rfl⟩
  | some w' => exact ⟨[t], by rw [play_cons, hadvance]; rfl⟩

/-- A step of a request leaves all other requests as they are. -/
theorem request?_push_of_ne {t u : Ticket} (hne : u ≠ t) (w : Workspace) :
    (w.push parser t).request? u = w.request? u := by
  unfold push
  cases hadvance : w.advance parser t with
  | none => rfl
  | some w' =>
    obtain ⟨l, l', r, hl, hturn, hr, hmoves, hlanes, -⟩ := moves_of_advance hadvance
    obtain ⟨id, turn⟩ := t
    obtain ⟨id', turn'⟩ := u
    obtain rfl : r.turn = turn := hturn
    obtain ⟨-, -, -, -, hother⟩ := hmoves.request? hr
    unfold request?
    rw [Option.getD_some, hlanes, NatMap.get?_insert]
    split
    · rename_i heq
      obtain rfl : id = id' := heq.symm
      rw [hl, Option.bind_some, Option.bind_some]
      exact hother turn' fun hturn => hne (congrArg (Ticket.mk id) hturn)
    · rfl

/-- A request that nobody keeps waiting takes a step, unless it has finished. -/
theorem Reachable.stepsLeft_push (h : Reachable parser rule w) {t : Ticket} {l : Lane}
    (hl : w.lanes.get? t.document = some l) {r : Request} (hr : l.request? t.turn = some r)
    (hfront : ∀ s ∈ l.requests, s.turn < t.turn → s.stage = .finished) :
    ∃ l' stage, (w.push parser t).lanes.get? t.document = some l' ∧
      l'.document.parts = l.document.parts ∧ l'.request? t.turn = some { r with stage } ∧
      stage.stepsLeft l.document.parts.length ≤ r.stage.stepsLeft l.document.parts.length - 1 := by
  have hturn := Lane.turn_of_request? hr
  by_cases hfinished : r.stage = .finished
  · have hnone : w.advance parser t = none := by
      simp [advance, hl, hr, Lane.advance_of_finished hr hfinished]
    refine ⟨l, r.stage, ?_, rfl, hr, ?_⟩
    · rw [push, hnone]
      exact hl
    · rw [hfinished]
      exact Nat.zero_le _
  · obtain ⟨id, turn⟩ := t
    obtain rfl : r.turn = turn := hturn
    obtain ⟨w', hw'⟩ := Option.isSome_iff_exists.1
      (h.isSome_advance_of_earliest hl (Lane.mem_of_request? hr) hfinished hfront)
    obtain ⟨a, l', s, ha, hturn, hs, hmoves, hlanes, -⟩ := moves_of_advance hw'
    obtain rfl := Option.some.inj (hl.symm.trans ha)
    rw [hturn] at hs
    obtain rfl := Option.some.inj (hr.symm.trans hs)
    obtain ⟨stage, -, -, hself, -⟩ := hmoves.request? hr
    have hlt := hmoves.stepsLeft_lt_stage hr hself
    refine ⟨l', stage, ?_, hmoves.parts, hself, by omega⟩
    rw [push, hw', Option.getD_some, hlanes, NatMap.get?_insert, if_pos rfl]

theorem exists_play_settle (parser : Parser) (w : Workspace) (t : Ticket) :
    ∃ order, w.play parser order = some (w.settle parser t) := by
  rw [settle_eq]
  generalize ((w.lanes.get? t.document).map Lane.stepsPerRequest).getD 0 = steps
  induction steps with
  | zero => exact ⟨[], rfl⟩
  | succ n ih =>
    obtain ⟨order, hplay⟩ := ih
    obtain ⟨order', hplay'⟩ := exists_play_push parser (Nat.repeat (push parser t) n w) t
    exact ⟨order ++ order', by rw [play_append, hplay]; exact hplay'⟩

theorem exists_play_drain (parser : Parser) (w : Workspace) :
    ∃ order, w.play parser order = some (w.drain parser) := by
  unfold drain
  generalize w.unfinished = tickets
  induction tickets generalizing w with
  | nil => exact ⟨[], rfl⟩
  | cons t tickets ih =>
    obtain ⟨order, hplay⟩ := w.exists_play_settle parser t
    obtain ⟨order', hplay'⟩ := ih (w.settle parser t)
    exact ⟨order ++ order', by rw [play_append, hplay]; exact hplay'⟩

theorem request?_settle_of_ne {t u : Ticket} (hne : u ≠ t) (w : Workspace) :
    (w.settle parser t).request? u = w.request? u := by
  rw [settle_eq]
  generalize ((w.lanes.get? t.document).map Lane.stepsPerRequest).getD 0 = steps
  induction steps with
  | zero => rfl
  | succ n ih => exact (request?_push_of_ne hne _).trans ih

/-- The steps that are provided for a request that is not under way are enough, if nobody keeps it
waiting. -/
theorem Reachable.request?_settle (h : Reachable parser rule w) {t : Ticket} {r : Request}
    (hr : w.request? t = some r) (hidle : r.stage.isUnderWay = false)
    (hfront : ∀ u s, w.request? u = some s → u.document = t.document → u.turn < t.turn →
      s.stage = .finished) :
    (w.settle parser t).request? t = some { r with stage := .finished } := by
  obtain ⟨l, hl, hrl⟩ := Option.bind_eq_some_iff.1 hr
  have hleft : ∀ n, Reachable parser rule (Nat.repeat (push parser t) n w) ∧
      (∀ u, u ≠ t → (Nat.repeat (push parser t) n w).request? u = w.request? u) ∧
      ∃ l' stage, (Nat.repeat (push parser t) n w).lanes.get? t.document = some l' ∧
        l'.document.parts = l.document.parts ∧ l'.request? t.turn = some { r with stage } ∧
        stage.stepsLeft l.document.parts.length ≤ l.document.parts.length + 5 - n := by
    intro n
    induction n with
    | zero => exact ⟨h, fun _ _ => rfl, l, r.stage, hl, rfl, hrl, Stage.stepsLeft_le hidle⟩
    | succ n ih =>
      rw [Nat.repeat]
      generalize Nat.repeat (push parser t) n w = v at ih
      obtain ⟨hreach, hother, l', stage, hl', hparts, hself, hle⟩ := ih
      have hstill : ∀ s ∈ l'.requests, s.turn < t.turn → s.stage = .finished := by
        intro s hs hlt
        refine hfront ⟨t.document, s.turn⟩ s ?_ rfl hlt
        rw [← hother _ (fun heq => Nat.ne_of_lt hlt (congrArg Ticket.turn heq)),
          request?_of_lane hl', (hreach.lane hl').chained.numbered.request?_eq hs]
      obtain ⟨l₂, stage', hl₂, hparts₂, hself₂, hle₂⟩ := hreach.stepsLeft_push hl' hself hstill
      rw [hparts] at hle₂
      dsimp only at hle₂
      refine ⟨hreach.run (run_advance parser rule v t), ?_, l₂, stage', hl₂,
        hparts₂.trans hparts, hself₂, by omega⟩
      intro u hne
      rw [request?_push_of_ne hne, hother u hne]
  rw [settle_eq, hl, Option.map_some, Option.getD_some, Lane.stepsPerRequest]
  obtain ⟨-, -, l', stage, hl', -, hself, hle⟩ := hleft (l.document.parts.length + 5)
  rw [Nat.sub_self, Nat.le_zero, Stage.stepsLeft_eq_zero_iff] at hle
  subst hle
  rw [request?, hl', Option.bind_some, hself]

theorem settle_of_request?_eq_none {t : Ticket} (h : w.request? t = none) :
    w.settle parser t = w := by
  have hnone : w.advance parser t = none := by
    cases hadvance : w.advance parser t with
    | none => rfl
    | some w' =>
      obtain ⟨l, l', r, hl, hr, -⟩ := advance_eq_some hadvance
      rw [request?, hl, Option.bind_some, hr] at h
      cases h
  rw [settle_eq]
  generalize ((w.lanes.get? t.document).map Lane.stepsPerRequest).getD 0 = steps
  induction steps with
  | zero => rfl
  | succ n ih => rw [Nat.repeat, ih, push, hnone, Option.getD_none]

/-- Requests of one document stand in the list of the unfinished ones in the order of
acceptance. -/
theorem Reachable.pairwise_unfinished (h : Reachable parser rule w) :
    w.unfinished.Pairwise fun t u => t.document = u.document → t.turn < u.turn := by
  refine List.pairwise_flatMap.2 ⟨?_, ?_⟩
  · intro e he
    have hl := NatMap.get?_eq_some_iff.2 he
    have hascending : e.2.unfinished.Pairwise (· < ·) := by
      refine List.Pairwise.sublist (List.filter_sublist.map _) ?_
      rw [(h.lane hl).chained.numbered]
      exact List.pairwise_lt_range'
    refine List.pairwise_map.2 (hascending.imp ?_)
    intro a b hlt _
    exact hlt
  · refine w.lanes.ascending.imp ?_
    intro a b hlt t ht u hu heq
    obtain ⟨_, -, rfl⟩ := List.mem_map.1 ht
    obtain ⟨_, -, rfl⟩ := List.mem_map.1 hu
    exact absurd heq (Nat.ne_of_lt hlt)

theorem mem_unfinished {t : Ticket} {r : Request} (hr : w.request? t = some r)
    (hunfinished : r.stage ≠ .finished) : t ∈ w.unfinished := by
  obtain ⟨l, hl, hrl⟩ := Option.bind_eq_some_iff.1 hr
  refine List.mem_flatMap.2 ⟨(t.document, l), NatMap.get?_eq_some_iff.1 hl, ?_⟩
  refine List.mem_map.2 ⟨t.turn, ?_, rfl⟩
  refine List.mem_map.2 ⟨r, List.mem_filter.2 ⟨Lane.mem_of_request? hrl, ?_⟩,
    Lane.turn_of_request? hrl⟩
  cases hstage : r.stage with
  | finished => exact absurd hstage hunfinished
  | _ => rfl

/-- Settling requests one after the other finishes those that are listed, if none in front of them
is missing from the list. -/
theorem Reachable.finished_of_foldl_settle (h : Reachable parser rule w) {tickets : List Ticket}
    (hasc : tickets.Pairwise fun t u => t.document = u.document → t.turn < u.turn)
    (hlisted : ∀ t r, w.request? t = some r →
      r.stage = .finished ∨ r.stage = .queued ∧ t ∈ tickets) {t : Ticket} {r : Request}
    (hr : (tickets.foldl (settle parser) w).request? t = some r) : r.stage = .finished := by
  induction tickets generalizing w with
  | nil =>
    rcases hlisted t r hr with hfinished | ⟨-, hmem⟩
    · exact hfinished
    · cases hmem
  | cons u tickets ih =>
    obtain ⟨hfirst, hrest⟩ := List.pairwise_cons.1 hasc
    refine ih (h.run (run_settle parser rule w u)) hrest ?_ hr
    have hfront : ∀ v s, w.request? v = some s → v.document = u.document → v.turn < u.turn →
        s.stage = .finished := by
      intro v s hs hdocument hlt
      rcases hlisted v s hs with hfinished | ⟨-, hmem⟩
      · exact hfinished
      · rcases List.mem_cons.1 hmem with rfl | hlater
        · exact absurd hlt (Nat.lt_irrefl _)
        · exact absurd (hfirst v hlater hdocument.symm) (Nat.lt_asymm hlt)
    intro v s hs
    by_cases hv : v = u
    · subst hv
      left
      cases hfound : w.request? v with
      | none =>
        rw [settle_of_request?_eq_none hfound, hfound] at hs
        cases hs
      | some q =>
        have hidle : q.stage.isUnderWay = false := by
          rcases hlisted v q hfound with hstage | ⟨hstage, -⟩ <;> rw [hstage] <;> rfl
        obtain rfl := Option.some.inj ((h.request?_settle hfound hidle hfront).symm.trans hs)
        rfl
    · rw [request?_settle_of_ne hv] at hs
      rcases hlisted v s hs with hfinished | ⟨hqueued, hmem⟩
      · exact .inl hfinished
      · exact .inr ⟨hqueued, (List.mem_cons.1 hmem).resolve_left hv⟩

/-- Draining is a drain: where no request is under way, it finishes all. -/
theorem Reachable.drains_drain (h : Reachable parser rule w) (hidle : w.isUnderWay = false) :
    ∃ order, Drains parser w order (w.drain parser) := by
  obtain ⟨order, hplay⟩ := w.exists_play_drain parser
  have hlisted : ∀ t r, w.request? t = some r →
      r.stage = .finished ∨ r.stage = .queued ∧ t ∈ w.unfinished := by
    intro t r hr
    obtain ⟨l, hl, hrl⟩ := Option.bind_eq_some_iff.1 hr
    have hstage := isUnderWay_eq_false_iff.1 hidle _ l hl r (Lane.mem_of_request? hrl)
    by_cases hfinished : r.stage = .finished
    · exact .inl hfinished
    · refine .inr ⟨?_, mem_unfinished hr hfinished⟩
      cases hcase : r.stage with
      | queued => rfl
      | finished => exact absurd hcase hfinished
      | _ => rw [hcase] at hstage; cases hstage
  refine ⟨order, hplay, ?_⟩
  intro t
  cases hadvance : (w.drain parser).advance parser t with
  | none => rfl
  | some w' =>
    obtain ⟨l, l', r, hl, hr, hl', -⟩ := advance_eq_some hadvance
    have hfinished := h.finished_of_foldl_settle h.pairwise_unfinished hlisted
      ((request?_of_lane hl t.turn).trans hr)
    rw [Lane.advance_of_finished hr hfinished] at hl'
    cases hl'

/-! ## No request waits for ever -/

/-- No way in which a request ends keeps back those behind it. In every reachable workspace the
earliest request of a document that has not finished waits for nobody, or for one that has
signalled, and it can take a step; so where a request is unfinished, some request can take one.
Whatever steps requests take, there are no more than a bound known in advance, and they can be
carried on until no request can take any more. Then every request has a result and the count is
zero. Draining one request after the other, where none is under way, is one of these ways. -/
theorem requests_never_block (h : Reachable parser rule w) :
    (∀ id l, w.lanes.get? id = some l → ∀ r ∈ l.requests, r.stage ≠ .finished →
      (∀ s ∈ l.requests, s.turn < r.turn → s.stage = .finished) →
      (r.after = none ∨
        ∃ p ∈ l.requests, r.after = some p.turn ∧ p.stage.hasSignalled = true) ∧
      (w.advance parser ⟨id, r.turn⟩).isSome = true) ∧
    (w.count ≠ 0 → ∃ t ∈ w.unfinished, (w.advance parser t).isSome = true) ∧
    (∀ order w', w.play parser order = some w' →
      order.length ≤ w.stepsLeft ∧ ∃ rest w'', Drains parser w (order ++ rest) w'') ∧
    (∀ order w', Drains parser w order w' →
      w'.count = 0 ∧ ∀ id l, w.lanes.get? id = some l → ∀ r ∈ l.requests,
        (w'.outcome? ⟨id, r.turn⟩).isSome = true) ∧
    (w.isUnderWay = false → ∃ order, Drains parser w order (w.drain parser)) := by
  refine ⟨?_, ?_, ?_, ?_, h.drains_drain⟩
  · intro id l hl r hr hunfinished hfront
    refine ⟨?_, h.isSome_advance_of_earliest hl hr hunfinished hfront⟩
    rcases (h.lane hl).chained.after_cases hr with hnone | ⟨p, hp, hafter, hlt⟩
    · exact .inl hnone
    · exact .inr ⟨p, hp, hafter, by rw [hfront p hp hlt]; rfl⟩
  · intro hcount
    apply Classical.byContradiction
    intro hnone
    refine hcount (h.count_eq_zero_iff.2 ?_)
    intro id l hl r hr
    apply Classical.byContradiction
    intro hunfinished
    obtain ⟨s, hs, hunfinished', hfront⟩ := Lane.exists_earliest hr hunfinished
    have hrequest := (h.lane hl).chained.numbered.request?_eq hs
    exact hnone ⟨⟨id, s.turn⟩,
      mem_unfinished ((request?_of_lane hl s.turn).trans hrequest) hunfinished',
      h.isSome_advance_of_earliest hl hs hunfinished' hfront⟩
  · intro order w' hplay
    refine ⟨Nat.le_trans (Nat.le_add_right _ _) (h.length_add_stepsLeft_le hplay), ?_⟩
    obtain ⟨rest, w'', hrest⟩ := (h.run (run_play hplay)).exists_drains
    refine ⟨rest, w'', ?_, hrest.atRest⟩
    rw [play_append, hplay]
    exact hrest.played
  · intro order w' hdrains
    have hrun : Run parser rule w w' := run_play hdrains.played
    have hreach := h.run hrun
    have hfinished : ∀ id l, w'.lanes.get? id = some l → ∀ r ∈ l.requests, r.stage = .finished := by
      intro id l hl r hr
      exact hreach.finished_of_atRest hdrains.atRest hl hr
    refine ⟨hreach.count_eq_zero_iff.2 hfinished, ?_⟩
    intro id l hl r hr
    obtain ⟨l', hl', hlane⟩ := hrun.lane hl
    have hchain := (h.lane hl).chained
    obtain ⟨stage, hr'⟩ := hchain.request?_run hlane (hchain.numbered.request?_eq hr)
    have hbox := (hreach.lane hl').chained.isSome_outcome?_of_finished hr'
      (hfinished id l' hl' _ (Lane.mem_of_request? hr'))
    rwa [outcome?_of_get? hl']

/-- Of three requests the first has broken off, the second has failed, and the third has been
dropped; two more have been accepted after that. -/
def reopened : Workspace :=
  let scripts : NatMap Script := NatMap.empty
    |>.insert 0 ⟨[.panicked "lost", .failed "gone", .content "x = 1".toUTF8 1]⟩
  let w := (ofSettings .standard).add ⟨1, none, none, .project (.scripts scripts) .fresh⟩
  let w := (w.enqueue (some 1) .standard true).1
  let w := (w.enqueue (some 1) .standard true).1
  let w := (w.enqueue (some 1) .standard true).1
  let w := (w.settle .plain ⟨1, 1⟩).settle .plain ⟨1, 2⟩
  let w := w.shutdown.getD w
  let w := (w.enqueue (some 1) .standard true).1
  (w.enqueue (some 1) .standard true).1

theorem reachable_reopened : Reachable .plain (fun _ _ _ => False) reopened := by
  refine ⟨.standard, ?_⟩
  unfold reopened
  refine .tail (.tail ?_ (.enqueue (some 1) .standard true)) (.enqueue (some 1) .standard true)
  refine ReflTransGen.trans ?_ (run_shutdown _ _ _)
  refine ReflTransGen.trans ?_ (run_settle _ _ _ _)
  refine ReflTransGen.trans ?_ (run_settle _ _ _ _)
  refine .tail ?_ (.enqueue (some 1) .standard true)
  refine .tail (.tail ?_ (.enqueue (some 1) .standard true)) (.enqueue (some 1) .standard true)
  exact .single (.add rfl rfl)

theorem reopened_never_blocked : Reachable .plain (fun _ _ _ => False) reopened ∧
    reopened.count = 2 ∧
    (∃ l, reopened.lanes.get? 1 = some l ∧ l.lastSuccess? = none ∧
      l.mailbox.map Prod.fst = [3, 2, 1] ∧
      ∃ r ∈ l.requests, r.turn = 4 ∧ r.after = some 3 ∧ r.stage ≠ .finished ∧
        (∀ s ∈ l.requests, s.turn < r.turn → s.stage = .finished) ∧
        (reopened.advance .plain ⟨1, r.turn⟩).isSome = true) ∧
    (∃ t ∈ reopened.unfinished, (reopened.advance .plain t).isSome = true) ∧
    (∃ order, Drains .plain reopened order (reopened.drain .plain)) ∧
    (reopened.drain .plain).count = 0 := by
  obtain ⟨hearliest, hsome, -, hends, hdrain⟩ := requests_never_block reachable_reopened
  obtain ⟨order, hdrains⟩ := hdrain rfl
  refine ⟨reachable_reopened, rfl, ?_, hsome (by decide), ⟨order, hdrains⟩,
    (hends order _ hdrains).1⟩
  have hmem : ∃ r l, reopened.lanes.get? 1 = some l ∧ l.lastSuccess? = none ∧
      l.mailbox.map Prod.fst = [3, 2, 1] ∧ r ∈ l.requests ∧ r.turn = 4 ∧ r.after = some 3 ∧
      r.stage ≠ .finished ∧ (∀ s ∈ l.requests, s.turn < r.turn → s.stage = .finished) := by
    refine ⟨_, _, rfl, rfl, rfl, .tail _ (.tail _ (.tail _ (.head _))), rfl, rfl, nofun, ?_⟩
    intro s hs hlt
    rcases hs with _ | ⟨_, _ | ⟨_, _ | ⟨_, _ | ⟨_, _ | ⟨_, ⟨⟩⟩⟩⟩⟩⟩
    · rfl
    · rfl
    · rfl
    · exact absurd hlt (by decide)
    · exact absurd hlt (by decide)
  obtain ⟨r, l, hl, hlast, hbox, hr, hturn, hafter, hstage, hfront⟩ := hmem
  exact ⟨l, hl, hlast, hbox, r, hr, hturn, hafter, hstage, hfront,
    (hearliest 1 l hl r hr hstage hfront).2⟩

end Workspace

end Reparse
