import Reparse.Proofs.Schedule.Installed

/-!
What is open and what has been settled. A request has three things to give back: the beginning that
its document remembers, its result, and its place in the count. They are given back at different
steps and on different ways out, and the laws here say that none is forgotten and none is given back
twice: the count is the number of requests that have not finished, a document that nobody else
begins or aborts has as many parses pending as it has requests that have not ended, and every
request that has ended has one result.
-/

namespace Reparse

open Relation

/-! ## Totals -/

namespace NatMap

variable {α : Type} {m : NatMap α}

/-- The total of a measure of the values. -/
def totalOf (m : NatMap α) (f : α → Nat) : Nat :=
  total (m.values.map f)

theorem total_place (f : α → Nat) (k : Nat) (a : α) {es : List (Nat × α)}
    (h : es.Pairwise fun a b => a.1 < b.1) :
    total ((place k a es).map (f ∘ Prod.snd)) + ((es.lookup k).map f).getD 0 =
      total (es.map (f ∘ Prod.snd)) + f a := by
  induction es with
  | nil => simp [place]
  | cons d es ih =>
    obtain ⟨j, b⟩ := d
    rw [place]
    split
    · rename_i hlt
      rw [lookup_eq_none_of_lt h hlt]
      simp [Nat.add_comm]
    split
    · rename_i _ heq
      subst heq
      simp
      omega
    · rename_i _ hne
      have hbeq : (k == j) = false := by simpa using hne
      have hrest := ih (List.pairwise_cons.1 h).2
      simp only [List.map_cons, Function.comp, total_cons, List.lookup_cons, hbeq] at hrest ⊢
      omega

theorem totalOf_insert (m : NatMap α) (k : Nat) (a : α) (f : α → Nat) :
    (m.insert k a).totalOf f + ((m.get? k).map f).getD 0 = m.totalOf f + f a := by
  have hplace := total_place f k a m.ascending
  simpa only [totalOf, values, insert, get?, List.map_map] using hplace

theorem totalOf_insert_of_some {k : Nat} {a : α} (h : m.get? k = some a) (b : α) (f : α → Nat) :
    (m.insert k b).totalOf f + f a = m.totalOf f + f b := by
  have hinsert := m.totalOf_insert k b f
  rwa [h] at hinsert

theorem totalOf_insert_of_none {k : Nat} (h : m.get? k = none) (a : α) (f : α → Nat) :
    (m.insert k a).totalOf f = m.totalOf f + f a := by
  have hinsert := m.totalOf_insert k a f
  rwa [h] at hinsert

theorem totalOf_modify (m : NatMap α) (k : Nat) {g : α → α} {f : α → Nat}
    (h : ∀ a, f (g a) = f a) : (m.modify k g).totalOf f = m.totalOf f := by
  unfold modify
  split
  · rename_i a ha
    have hinsert := totalOf_insert_of_some ha (g a) f
    rw [h a] at hinsert
    omega
  · rfl

theorem totalOf_congr {f g : α → Nat} (h : ∀ k a, m.get? k = some a → f a = g a) :
    m.totalOf f = m.totalOf g := by
  unfold totalOf values
  rw [List.map_map, List.map_map]
  congr 1
  apply List.map_congr_left
  intro e he
  exact h e.1 e.2 (get?_eq_some_iff.2 he)

theorem totalOf_mapValues (m : NatMap α) (g : α → α) (f : α → Nat) :
    (m.mapValues fun _ a => g a).totalOf f = m.totalOf fun a => f (g a) := by
  simp [totalOf, values, mapValues, Function.comp_def]

theorem totalOf_eq_zero {f : α → Nat} (h : ∀ k a, m.get? k = some a → f a = 0) :
    m.totalOf f = 0 := by
  apply total_eq_zero
  intro n hn
  obtain ⟨a, ha, rfl⟩ := List.mem_map.1 hn
  obtain ⟨e, he, rfl⟩ := List.mem_map.1 ha
  exact h e.1 e.2 (get?_eq_some_iff.2 he)

theorem le_totalOf {k : Nat} {a : α} (h : m.get? k = some a) (f : α → Nat) :
    f a ≤ m.totalOf f := by
  have hmem : f a ∈ m.values.map f :=
    List.mem_map_of_mem (List.mem_map_of_mem (f := Prod.snd) (get?_eq_some_iff.1 h))
  exact le_total_of_mem hmem

end NatMap

namespace Stage

/-- The request has begun and has not ended: its document counts it as pending. -/
def isOpen : Stage → Bool
  | queued | running _ => true
  | _ => false

theorem Next.unfinished {s s' : Stage} (h : s.Next s') :
    (!s.isFinished).toNat = (!s'.isFinished).toNat + s.isLeaving.toNat := by
  cases h <;> rfl

/-- A request that ends comes to a result, and no other one does. -/
theorem Next.ended {s s' : Stage} (h : s.Next s') :
    s.isOpen.toNat = s'.isOpen.toNat + s'.outcome?.toList.length := by
  cases h <;> rfl

end Stage

theorem Lifecycle.phase_ne_inProgress {c : Lifecycle} (h : c.pending = 0) :
    c.phase ≠ .inProgress := by
  intro hphase
  unfold phase at hphase
  rw [h, if_neg (Nat.lt_irrefl 0)] at hphase
  split at hphase
  · cases hphase
  · cases hphase

namespace Document

theorem IsNew.lifecycle?_eq_fresh {d : Document} (h : d.IsNew) {c : Lifecycle}
    (hc : d.lifecycle? = some c) : c = .fresh := by
  unfold lifecycle? at hc
  unfold IsNew at h
  cases hbody : d.body with
  | project store lifecycle =>
    rw [hbody] at h hc
    obtain rfl := Option.some.inj hc
    cases store with
    | buffers b => exact h.2
    | scripts s => exact h
  | external script refusal received =>
    rw [hbody] at hc
    cases hc

/-- Only who begins or aborts a parse on their own changes the lifecycle. -/
theorem lifecycle?_touch (d : Document) {t : Touch} (hbegin : t ≠ .begin) (habort : t ≠ .abort) :
    (t.apply d).lifecycle? = d.lifecycle? := by
  obtain ⟨id, uri, path, body⟩ := d
  cases t with
  | begin => exact absurd rfl hbegin
  | abort => exact absurd rfl habort
  | _ => rcases body with ⟨_ | _, _⟩ | _ <;> rfl

end Document

namespace Lane

variable {parser : Parser} {rule : TouchRule} {l l' : Lane} {r : Request}

/-! ## Weights of requests -/

/-- The total of the weights that the requests have by their stages. -/
def weigh (l : Lane) (weight : Stage → Nat) : Nat :=
  total (l.requests.map fun r => weight r.stage)

theorem length_filter_eq_weigh (l : Lane) (p : Stage → Bool) :
    (l.requests.filter fun r => p r.stage).length = l.weigh fun s => (p s).toNat := by
  unfold weigh
  induction l.requests with
  | nil => rfl
  | cons r rs ih =>
    rw [List.filter_cons, List.map_cons, total_cons, ← ih]
    cases hp : p r.stage with
    | true => simp [hp, Nat.add_comm]
    | false => simp [hp]

theorem length_unfinished (l : Lane) :
    l.unfinished.length = l.weigh fun s => (!s.isFinished).toNat := by
  rw [unfinished, List.length_map]
  exact l.length_filter_eq_weigh fun s => !s.isFinished

theorem length_queued (l : Lane) : l.queued.length = l.weigh fun s => s.isQueued.toNat := by
  rw [queued, List.length_map]
  exact l.length_filter_eq_weigh Stage.isQueued

/-- Changing the stage of one request changes the weight of that one. -/
theorem total_map_of_find? (weight : Stage → Nat) (stage : Stage) {turn : Nat} {rs : List Request}
    (hnodup : (rs.map Request.turn).Nodup) (hr : rs.find? (·.turn == turn) = some r) :
    total (rs.map fun q => weight (if q.turn = turn then { q with stage } else q).stage) +
        weight r.stage =
      total (rs.map fun q => weight q.stage) + weight stage := by
  induction rs with
  | nil => cases hr
  | cons q rs ih =>
    rw [List.map_cons, List.nodup_cons] at hnodup
    rw [List.find?_cons] at hr
    simp only [List.map_cons, total_cons]
    by_cases hq : q.turn = turn
    · simp only [hq, beq_self_eq_true, Option.some.injEq] at hr
      subst hr
      have hrest : (rs.map fun p => weight (if p.turn = turn then { p with stage } else p).stage) =
          rs.map fun p => weight p.stage := by
        apply List.map_congr_left
        intro p hp
        rw [if_neg]
        intro heq
        exact hnodup.1 (hq.trans heq.symm ▸ List.mem_map_of_mem hp)
      rw [hrest, if_pos hq]
      dsimp only
      omega
    · have hbeq : (q.turn == turn) = false := by simpa using hq
      rw [hbeq] at hr
      have hrest := ih hnodup.2 hr
      rw [if_neg hq]
      omega

theorem Numbered.weigh_setStage (h : l.Numbered) {turn : Nat} (hr : l.request? turn = some r)
    (stage : Stage) (weight : Stage → Nat) :
    (l.setStage turn stage).weigh weight + weight r.stage = l.weigh weight + weight stage := by
  have hmap := total_map_of_find? weight stage h.nodup_turns hr
  unfold weigh Lane.setStage
  rw [List.map_map]
  exact hmap

theorem weigh_accept (l : Lane) (options : Options) (weight : Stage → Nat) :
    (l.accept options).1.weigh weight = l.weigh weight + weight .queued := by
  simp [weigh, accept]

/-- A step of a request changes the weight of that request alone. -/
theorem Moves.weigh (h : l.Moves parser r l') (hl : l.Numbered) (hr : l.request? r.turn = some r) :
    ∃ stage, r.stage.Next stage ∧ l'.request? r.turn = some { r with stage } ∧
      ∀ weight, l'.weigh weight + weight r.stage = l.weigh weight + weight stage := by
  obtain ⟨stage, hnext, -, hself, -⟩ := h.request? hr
  obtain ⟨stage', -, -, hrequests, -⟩ := h.stage
  have hself' : l'.request? r.turn = some { r with stage := stage' } := by
    unfold Lane.request?
    rw [hrequests]
    exact request?_setStage_self hr stage'
  obtain rfl : stage = stage' :=
    congrArg Request.stage (Option.some.inj (hself.symm.trans hself'))
  refine ⟨stage, hnext, hself, ?_⟩
  intro weight
  have hset := hl.weigh_setStage hr stage weight
  unfold Lane.weigh at hset ⊢
  rwa [hrequests]

/-! ## Where no request is under way -/

theorem unfinished_eq_queued (hidle : ∀ r ∈ l.requests, r.stage.isUnderWay = false) :
    l.unfinished = l.queued := by
  unfold unfinished queued
  congr 1
  apply List.filter_congr
  intro r hr
  have hstage := hidle r hr
  generalize r.stage = s at hstage
  cases s <;> first | rfl | cases hstage

/-- Dropping the queued requests finishes all. -/
theorem finished_of_mem_dropQueued (hidle : ∀ r ∈ l.requests, r.stage.isUnderWay = false)
    (hr : r ∈ l.dropQueued.requests) : r.stage = .finished := by
  unfold dropQueued at hr
  rw [requests_foldl_drop] at hr
  obtain ⟨s, hs, rfl⟩ := List.mem_map.1 hr
  split
  · rfl
  · rename_i hkept
    have hstarted : s.stage.isQueued = false := by
      rw [← Bool.not_eq_true]
      intro hqueued
      exact hkept (List.mem_map_of_mem (List.mem_filter.2 ⟨hs, hqueued⟩))
    have hstage := hidle s hs
    cases hcase : s.stage with
    | finished => rfl
    | _ => simp [hcase, Stage.isUnderWay, Stage.isQueued, Stage.isFinished] at hstage hstarted

theorem weigh_dropQueued (hidle : ∀ r ∈ l.requests, r.stage.isUnderWay = false)
    {weight : Stage → Nat} (hweight : weight .finished = 0) : l.dropQueued.weigh weight = 0 := by
  apply total_eq_zero
  intro n hn
  obtain ⟨r, hr, rfl⟩ := List.mem_map.1 hn
  rw [finished_of_mem_dropQueued hidle hr, hweight]

/-- Where no request is under way, those that are open are those that are queued. -/
theorem weigh_isOpen_of_idle (hidle : ∀ r ∈ l.requests, r.stage.isUnderWay = false) :
    (l.weigh fun s => s.isOpen.toNat) = l.queued.length := by
  rw [length_queued]
  unfold weigh
  congr 1
  apply List.map_congr_left
  intro r hr
  have hstage := hidle r hr
  generalize r.stage = s at hstage
  cases s <;> first | rfl | cases hstage

/-! ## Results -/

theorem Numbered.nodup_queued (h : l.Numbered) : l.queued.Nodup :=
  h.nodup_turns.sublist (List.filter_sublist.map _)

theorem Chained.result?_of_isOpen (h : l.Chained) {turn : Nat} (hr : l.request? turn = some r)
    (hopen : r.stage.isOpen = true) : l.result? turn = none := by
  have hundelivered : r.stage.hasDelivered = false := by
    cases hstage : r.stage <;> simp_all [Stage.isOpen, Stage.hasDelivered]
  have hunknown : r.stage.outcome? = none := by
    cases hstage : r.stage <;> simp_all [Stage.isOpen, Stage.outcome?]
  unfold result?
  rw [h.outcome?_eq_none hr hundelivered, hr, Option.bind_some, hunknown]
  rfl

/-- Every request is open or has a result, and none has two. -/
structure Settled (l : Lane) : Prop where
  ended : l.requests.length = (l.weigh fun s => s.isOpen.toNat) + l.results.length
  once : (l.results.map Prod.fst).Nodup

theorem Settled.accept (h : l.Settled) (options : Options) : (l.accept options).1.Settled where
  ended := by
    have hended := h.ended
    have hopen : (Stage.isOpen .queued).toNat = 1 := rfl
    have hlength : (l.accept options).1.requests.length = l.requests.length + 1 :=
      List.length_append
    rw [weigh_accept, results_accept, hlength]
    omega
  once := by
    rw [results_accept]
    exact h.once

theorem Settled.moves (h : l.Settled) (hchain : l.Chained)
    (hlisted : ∀ turn ∈ l.results.map Prod.fst, (l.result? turn).isSome = true)
    (hr : l.request? r.turn = some r) (hmoves : l.Moves parser r l') : l'.Settled := by
  obtain ⟨stage, hnext, hself, hweigh⟩ := hmoves.weigh hchain.numbered hr
  have hlength : l'.requests.length = l.requests.length := by
    obtain ⟨_, -, -, hrequests, -⟩ := hmoves.stage
    rw [hrequests, setStage, List.length_map]
  have hresults := hmoves.results hchain hr hself
  refine ⟨?_, ?_⟩
  · have hopen := hweigh fun s => s.isOpen.toNat
    have hended := hnext.ended
    have hold := h.ended
    rw [hlength, hresults, List.length_append, Option.toList_map, List.length_map]
    omega
  · rw [hresults, List.map_append]
    cases hout : stage.outcome? with
    | none => exact h.once
    | some outcome =>
      -- Only a request that has been at work comes to a result, and so it had none.
      refine List.nodup_cons.2 ⟨fun hmem => ?_, h.once⟩
      have hsome := hlisted r.turn hmem
      rw [Stage.outcome?_eq_some_iff.1 hout] at hnext
      generalize hstage : r.stage = s at hnext
      cases hnext
      rw [hchain.result?_of_isOpen hr (by rw [hstage]; rfl)] at hsome
      cases hsome

theorem Settled.drop (h : l.Settled) (hchain : l.Chained)
    (hlisted : ∀ turn ∈ l.results.map Prod.fst, (l.result? turn).isSome = true)
    (hidle : ∀ r ∈ l.requests, r.stage.isUnderWay = false) : l.dropQueued.Settled where
  ended := by
    have hended := h.ended
    rw [weigh_isOpen_of_idle hidle] at hended
    have hlength : l.dropQueued.requests.length = l.requests.length := by
      unfold dropQueued
      rw [requests_foldl_drop, List.length_map]
    rw [hlength, results_dropQueued hidle, weigh_dropQueued hidle rfl, List.length_append,
      List.length_map, List.length_reverse]
    omega
  once := by
    have hfst : (l.queued.reverse.map (·, (.error .cancelled : Outcome))).map Prod.fst =
        l.queued.reverse := by
      simp [Function.comp_def]
    have hnodup : l.queued.reverse.Nodup :=
      List.pairwise_reverse.2 (hchain.numbered.nodup_queued.imp Ne.symm)
    rw [results_dropQueued hidle, List.map_append, hfst]
    refine List.nodup_append.2 ⟨hnodup, h.once, ?_⟩
    rintro t ht _ hmem rfl
    obtain ⟨r, hr, hqueued⟩ := hchain.numbered.mem_queued_iff.1 (List.mem_reverse.1 ht)
    have hsome := hlisted t hmem
    rw [hchain.result?_of_isOpen hr (by rw [hqueued]; rfl)] at hsome
    cases hsome

theorem Reachable.settled (h : l.Reachable parser rule) : l.Settled := by
  obtain ⟨d, hnew, hrun⟩ := h
  induction hrun with
  | refl => exact ⟨rfl, .nil⟩
  | @tail l l' hinit hstep ih =>
    have hreachable : l.Reachable parser rule := ⟨d, hnew, hinit⟩
    have hchain := hreachable.chained
    have hlisted : ∀ turn ∈ l.results.map Prod.fst, (l.result? turn).isSome = true := by
      intro turn hmem
      obtain ⟨e, he, rfl⟩ := List.mem_map.1 hmem
      rw [hreachable.result?_of_mem_results he]
      rfl
    cases hstep with
    | touch t _ => exact ⟨ih.ended, ih.once⟩
    | accept options => exact ih.accept options
    | advance hadvance =>
      obtain ⟨r, hr, hmoves⟩ := advance_moves hadvance
      obtain rfl := turn_of_request? hr
      exact ih.moves hchain hlisted hr hmoves
    | drop hidle => exact ih.drop hchain hlisted hidle

theorem Chained.isSome_outcome?_of_finished (h : l.Chained) {turn : Nat}
    (hr : l.request? turn = some r) (hfinished : r.stage = .finished) :
    (l.outcome? turn).isSome = true := by
  rw [← h.delivered turn r hr, hfinished]
  rfl

/-! ## Parses that are pending -/

/-- A step takes a parse off its document exactly if its request comes to a result there. -/
theorem Moves.pending (h : l.Moves parser r l') (hr : l.request? r.turn = some r)
    (hinside : l.document.isProject = true → r.stage ≠ .running .external) {stage : Stage}
    (hself : l'.request? r.turn = some { r with stage }) {c' : Lifecycle}
    (hc' : l'.document.lifecycle? = some c') :
    ∃ c, l.document.lifecycle? = some c ∧
      c'.pending = c.pending - stage.outcome?.toList.length := by
  have key : ∀ next c, l'.request? r.turn = some { r with stage := next } →
      l.document.lifecycle? = some c → c'.pending = c.pending - next.outcome?.toList.length →
      ∃ c, l.document.lifecycle? = some c ∧
        c'.pending = c.pending - stage.outcome?.toList.length := by
    intro next c hnext hc heq
    obtain rfl : next = stage :=
      congrArg Request.stage (Option.some.inj (hnext.symm.trans hself))
    exact ⟨c, hc, heq⟩
  cases h with
  | start _ _ => exact key _ c' (request?_setStage_self hr _) hc' rfl
  | skip _ _ hreads =>
    exact key _ c' (request?_setStage_self (hreads.request?_eq_some hr) _)
      (hreads.lifecycle.symm.trans hc') rfl
  | gather _ _ _ hreads =>
    exact key _ c' (request?_setStage_self (hreads.request?_eq_some hr) _)
      (hreads.lifecycle.symm.trans hc') rfl
  | @fail job failure l₁ _ hkeeps _ =>
    obtain ⟨c, hc, rfl⟩ :=
      Option.map_eq_some_iff.1 ((l₁.document.lifecycle?_mapLifecycle _).symm.trans hc')
    exact key (.concluded (.error failure)) c
      (request?_setStage_self (hkeeps.request?_eq_some hr) _)
      (hkeeps.lifecycle.symm.trans hc) rfl
  | install _ _ =>
    obtain ⟨c, hc, rfl⟩ :=
      Option.map_eq_some_iff.1 ((l.document.lifecycle?_mapLifecycle _).symm.trans hc')
    exact key _ c (request?_setStage_self hr _) hc rfl
  | hand hstage hreads =>
    -- Only a document outside is handed content, and it has no lifecycle.
    have hproject : l.document.isProject = true := by
      rw [Document.isProject_eq, hreads.lifecycle.symm.trans hc']
      rfl
    exact absurd hstage (hinside hproject)
  | _ => exact key _ c' (request?_setStage_self hr _) hc' rfl

theorem Reachable.pending_eq (hquiet : ∀ d t, rule d t → t ≠ .begin ∧ t ≠ .abort)
    (h : l.Reachable parser rule) {c : Lifecycle} (hc : l.document.lifecycle? = some c) :
    c.pending = l.weigh fun s => s.isOpen.toNat := by
  obtain ⟨d, hnew, hrun⟩ := h
  induction hrun generalizing c with
  | refl =>
    obtain rfl := hnew.lifecycle?_eq_fresh hc
    rfl
  | @tail l l' hinit hstep ih =>
    have hreachable : l.Reachable parser rule := ⟨d, hnew, hinit⟩
    cases hstep with
    | touch t hallowed =>
      obtain ⟨hbegin, habort⟩ := hquiet _ _ hallowed
      exact ih ((l.document.lifecycle?_touch hbegin habort).symm.trans hc)
    | accept options =>
      obtain ⟨c₀, hc₀, rfl⟩ :=
        Option.map_eq_some_iff.1 ((l.document.lifecycle?_mapLifecycle _).symm.trans hc)
      rw [weigh_accept, ← ih hc₀]
      rfl
    | advance hadvance =>
      obtain ⟨r, hr, hmoves⟩ := advance_moves hadvance
      obtain rfl := turn_of_request? hr
      obtain ⟨stage, hnext, hself, hweigh⟩ := hmoves.weigh hreachable.chained.numbered hr
      have hinside : l.document.isProject = true → r.stage ≠ .running .external := by
        intro hproject
        exact hreachable.current.inside hproject _ r hr
      obtain ⟨c₀, hc₀, heq⟩ := hmoves.pending hr hinside hself hc
      have hopen := hweigh fun s => s.isOpen.toNat
      have hended := hnext.ended
      have hold := ih hc₀
      omega
    | drop hidle =>
      have hdocument : l.dropQueued.document = _ := document_foldl_drop l.queued l
      rw [hdocument, Document.lifecycle?_mapLifecycle] at hc
      obtain ⟨c₀, hc₀, rfl⟩ := Option.map_eq_some_iff.1 hc
      have hold := ih hc₀
      rw [weigh_isOpen_of_idle hidle] at hold
      rw [weigh_dropQueued hidle rfl]
      dsimp only
      omega

end Lane

namespace Workspace

variable {parser : Parser} {rule : Nat → TouchRule} {w w' : Workspace}

/-! ## The count -/

/-- The requests that have not finished, over all documents. -/
theorem length_unfinished (w : Workspace) :
    w.unfinished.length = w.lanes.totalOf fun l => l.unfinished.length := by
  unfold unfinished NatMap.totalOf NatMap.values
  induction w.lanes.entries with
  | nil => rfl
  | cons e es ih =>
    rw [List.flatMap_cons, List.length_append, ih, List.length_map, List.map_cons, List.map_cons,
      total_cons]

theorem count_of_shutdown (h : w.shutdown = some w') :
    w'.count = w.count - w.lanes.totalOf fun l => l.queued.length := by
  unfold shutdown at h
  split at h
  · cases h
  · obtain rfl := Option.some.inj h
    rfl

/-- A step changes the count by as much as it changes the number of unfinished requests. -/
theorem Step.count_eq (hchain : ∀ id l, w.lanes.get? id = some l → l.Chained)
    (h : w.count = w.lanes.totalOf fun l => l.unfinished.length) (hstep : Step parser rule w w') :
    w'.count = w'.lanes.totalOf fun l => l.unfinished.length := by
  cases hstep with
  | @add d _ hfree =>
    have hadd := NatMap.totalOf_insert_of_none hfree (.ofDocument d) fun l => l.unfinished.length
    exact h.trans hadd.symm
  | @touch id d t _ _ =>
    have hmodify := w.lanes.totalOf_modify id (g := (·.mapDocument t.apply))
      (f := fun l => l.unfinished.length) fun _ => rfl
    exact h.trans hmodify.symm
  | setSettings settings => exact h
  | setTaskComments keywords => exact h
  | setIndentation severity => exact h
  | enqueue target version runtime =>
    rcases w.enqueue_cases target version runtime with ⟨_, heq⟩ | ⟨id, l, -, hl, heq⟩
    · rw [heq]
      exact h
    · rw [heq]
      have hinsert := NatMap.totalOf_insert_of_some hl
        (l.accept (w.settings.options version l.document.uri.isSome)).1
        fun l => l.unfinished.length
      have hone : (!Stage.isFinished .queued).toNat = 1 := rfl
      rw [Lane.length_unfinished, Lane.length_unfinished, Lane.weigh_accept] at hinsert
      dsimp only
      omega
  | @advance ticket w' hadvance =>
    obtain ⟨l, l', r, hl, -, hr, hmoves, hlanes, hcount⟩ := moves_of_advance hadvance
    obtain ⟨stage, hnext, -, hweigh⟩ := hmoves.weigh (hchain _ l hl).numbered hr
    have hinsert := NatMap.totalOf_insert_of_some hl l' fun l => l.unfinished.length
    have hopen := hweigh fun s => (!s.isFinished).toNat
    have hleft := hnext.unfinished
    rw [← Lane.length_unfinished, ← Lane.length_unfinished] at hopen
    rw [hlanes, hcount]
    omega
  | shutdown hshutdown =>
    obtain ⟨hidle, hlanes⟩ := shutdown_eq_some hshutdown
    have hqueued : (w.lanes.totalOf fun l => l.unfinished.length) =
        w.lanes.totalOf fun l => l.queued.length := by
      apply NatMap.totalOf_congr
      intro id l hl
      rw [Lane.unfinished_eq_queued (hidle id l hl)]
    have hnone : (w'.lanes.totalOf fun l => l.unfinished.length) = 0 := by
      rw [hlanes, NatMap.totalOf_mapValues]
      apply NatMap.totalOf_eq_zero
      intro id l hl
      rw [Lane.length_unfinished]
      exact Lane.weigh_dropQueued (hidle id l hl) rfl
    rw [count_of_shutdown hshutdown, hnone]
    omega

theorem Reachable.count_eq (h : Reachable parser rule w) :
    w.count = w.lanes.totalOf fun l => l.unfinished.length := by
  obtain ⟨settings, hrun⟩ := h
  induction hrun with
  | refl => rfl
  | tail hinit hstep ih =>
    have hreachable : Reachable parser rule _ := ⟨settings, hinit⟩
    exact hstep.count_eq (fun id l hl => (hreachable.lane hl).chained) ih

/-- Where the count is zero, no request has a step left. -/
theorem Reachable.finished_of_count_eq_zero (h : Reachable parser rule w) (hzero : w.count = 0)
    {id : Nat} {l : Lane} (hl : w.lanes.get? id = some l) {r : Request} (hr : r ∈ l.requests) :
    r.stage = .finished := by
  have hle := NatMap.le_totalOf hl fun l => l.unfinished.length
  rw [← h.count_eq, hzero] at hle
  have hnone : l.unfinished = [] := List.eq_nil_of_length_eq_zero (Nat.le_zero.1 hle)
  apply Classical.byContradiction
  intro hstage
  have hmem : r.turn ∈ l.unfinished := by
    refine List.mem_map_of_mem (List.mem_filter.2 ⟨hr, ?_⟩)
    cases hcase : r.stage with
    | finished => exact absurd hcase hstage
    | _ => rfl
  rw [hnone] at hmem
  cases hmem

/-- Nothing that has been accepted is forgotten and nothing is settled twice. In every reachable
workspace the count is the number of accepted requests that have not taken their last step. No
request delivers twice. A document of the project that nobody but requests begins or aborts has as
many parses pending as it has requests that have neither installed nor been aborted, and each of
the others has come to exactly one result. Where the count is zero, every accepted request has
delivered, and no such document is in progress. -/
theorem accepted_requests_accounted (h : Reachable parser rule w) :
    w.count = w.unfinished.length ∧
    (∀ id l, w.lanes.get? id = some l →
      (l.mailbox.map Prod.fst).Nodup ∧
      ((∀ d t, rule id d t → t ≠ .begin ∧ t ≠ .abort) →
        ∀ c, l.document.lifecycle? = some c →
          c.pending = (l.requests.filter (·.stage.isOpen)).length ∧
          l.requests.length = c.pending + l.results.length ∧
          (l.results.map Prod.fst).Nodup)) ∧
    (w.count = 0 → ∀ id l, w.lanes.get? id = some l →
      (∀ r ∈ l.requests, (w.outcome? ⟨id, r.turn⟩).isSome = true) ∧
      ((∀ d t, rule id d t → t ≠ .begin ∧ t ≠ .abort) →
        ∀ c, l.document.lifecycle? = some c → c.phase ≠ .inProgress)) := by
  refine ⟨?_, ?_, ?_⟩
  · rw [length_unfinished, h.count_eq]
  · intro id l hl
    have hlane := h.lane hl
    have hsettled := hlane.settled
    refine ⟨?_, ?_⟩
    · have honce := hsettled.once
      rw [Lane.results, List.map_append] at honce
      exact (List.nodup_append.1 honce).2.1
    · intro hquiet c hc
      have hpending := hlane.pending_eq hquiet hc
      refine ⟨?_, ?_, hsettled.once⟩
      · rw [hpending, l.length_filter_eq_weigh]
      · rw [hpending]
        exact hsettled.ended
  · intro hzero id l hl
    have hlane := h.lane hl
    have hchain := hlane.chained
    have hfinished : ∀ r ∈ l.requests, r.stage = .finished := by
      intro r hr
      exact h.finished_of_count_eq_zero hzero hl hr
    refine ⟨?_, ?_⟩
    · intro r hr
      have hbox := hchain.isSome_outcome?_of_finished (hchain.numbered.request?_eq hr)
        (hfinished r hr)
      rwa [outcome?_of_get? hl]
    · intro hquiet c hc
      have hpending := hlane.pending_eq hquiet hc
      have hclosed : (l.weigh fun s => s.isOpen.toNat) = 0 := by
        apply total_eq_zero
        intro n hn
        obtain ⟨r, hr, rfl⟩ := List.mem_map.1 hn
        rw [hfinished r hr]
        rfl
      exact Lifecycle.phase_ne_inProgress (hpending.trans hclosed)

/-- Of three requests one has succeeded and one has failed; a fourth one has been refused. -/
def oneLeft : Workspace :=
  let scripts : NatMap Script := NatMap.empty
    |>.insert 0 ⟨[.content "x = 1".toUTF8 1, .failed "gone"]⟩
  let w := (ofSettings .standard).add ⟨1, none, none, .project (.scripts scripts) .fresh⟩
  let w := (w.enqueue (some 1) .standard true).1
  let w := (w.enqueue (some 1) .standard true).1
  let w := (w.enqueue (some 1) .standard true).1
  let w := (w.enqueue (some 1) .standard false).1
  (w.settle .plain ⟨1, 1⟩).settle .plain ⟨1, 2⟩

/-- The one that was left has been dropped. -/
def quiesced : Workspace :=
  oneLeft.shutdown.getD oneLeft

theorem reachable_oneLeft : Reachable .plain (fun _ _ _ => False) oneLeft := by
  refine ⟨.standard, ?_⟩
  unfold oneLeft
  refine ReflTransGen.trans ?_ (run_settle _ _ _ _)
  refine ReflTransGen.trans ?_ (run_settle _ _ _ _)
  refine .tail ?_ (.enqueue (some 1) .standard false)
  refine .tail ?_ (.enqueue (some 1) .standard true)
  refine .tail (.tail ?_ (.enqueue (some 1) .standard true)) (.enqueue (some 1) .standard true)
  exact .single (.add rfl rfl)

theorem quiesced_accounted : Reachable .plain (fun _ _ _ => False) oneLeft ∧
    oneLeft.shutdown = some quiesced ∧ oneLeft.count = 1 ∧ oneLeft.unfinished = [⟨1, 3⟩] ∧
    oneLeft.count = oneLeft.unfinished.length ∧ quiesced.count = 0 ∧
    ∃ l c, quiesced.lanes.get? 1 = some l ∧ l.document.lifecycle? = some c ∧
      l.requests.length = 3 ∧ (l.mailbox.map Prod.fst) = [3, 2, 1] ∧
      l.requests.length = c.pending + l.results.length ∧
      (∀ r ∈ l.requests, (quiesced.outcome? ⟨1, r.turn⟩).isSome = true) ∧
      c.phase ≠ .inProgress := by
  have hshutdown : oneLeft.shutdown = some quiesced := rfl
  have hreach : Reachable .plain (fun _ _ _ => False) quiesced :=
    reachable_oneLeft.run (.single (.shutdown hshutdown))
  obtain ⟨-, hlanes, hzero⟩ := accepted_requests_accounted hreach
  have hquiet : ∀ (d : Document) (t : Touch), False → t ≠ .begin ∧ t ≠ .abort := nofun
  refine ⟨reachable_oneLeft, hshutdown, rfl, rfl,
    (accepted_requests_accounted reachable_oneLeft).1, rfl, _, _, rfl, rfl, rfl, rfl, ?_, ?_, ?_⟩
  · exact ((hlanes 1 _ rfl).2 hquiet _ rfl).2.1
  · exact (hzero rfl 1 _ rfl).1
  · exact (hzero rfl 1 _ rfl).2 hquiet _ rfl

end Workspace

end Reparse
