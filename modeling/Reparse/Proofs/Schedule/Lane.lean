import Reparse.Schedule.Lane

/-!
What the operations on a lane do. A lane is looked at through four views: its requests by number,
what they have come to, the lifecycle of its document, and what has been read. `advance_moves` says
once what a step of a request can be; every invariant of the schedule is derived from it.
-/

namespace Reparse

namespace Stage

/-- The request has started and has not signalled its completion. -/
def isActive (s : Stage) : Bool :=
  !s.isQueued && !s.hasSignalled

/-- The request has delivered what it has come to. -/
def hasDelivered : Stage → Bool
  | delivered | signalled | finished => true
  | _ => false

/-- What the request has come to and has not delivered yet. -/
def outcome? : Stage → Option Outcome
  | concluded outcome => some outcome
  | _ => none

/-- The stage to which a request moves on from another one. -/
inductive Next : Stage → Stage → Prop where
  | start (job : Job) : Next .queued (.running job)
  | goOn (job job' : Job) : Next (.running job) (.running job')
  | conclude (job : Job) (outcome : Outcome) : Next (.running job) (.concluded outcome)
  | deliver (outcome : Outcome) : Next (.concluded outcome) .delivered
  | signal : Next .delivered .signalled
  | finish : Next .signalled .finished

theorem isQueued_iff {s : Stage} : s.isQueued = true ↔ s = .queued := by
  cases s <;> simp [isQueued]

end Stage

namespace Lane

variable {parser : Parser} {l l' : Lane} {r : Request}

/-- What a request has come to, delivered or not. -/
def result? (l : Lane) (turn : Nat) : Option Outcome :=
  (l.outcome? turn).or ((l.request? turn).bind (·.stage.outcome?))

/-- What a request has read of a part. -/
def reading? (l : Lane) (turn part : Nat) : Option Reading :=
  (l.reads.find? fun e => e.turn == turn && e.part == part).map ReadEntry.reading

/-- The requests carry the numbers from one on, in the order of acceptance. -/
def Numbered (l : Lane) : Prop :=
  l.requests.map Request.turn = List.range' 1 l.requests.length

/-! ## Requests by number -/

theorem turn_of_request? {turn : Nat} (h : l.request? turn = some r) : r.turn = turn := by
  simpa using List.find?_some h

theorem mem_of_request? {turn : Nat} (h : l.request? turn = some r) : r ∈ l.requests :=
  List.mem_of_find?_eq_some h

theorem Numbered.nodup_turns (h : l.Numbered) : (l.requests.map Request.turn).Nodup := by
  rw [h]
  exact List.nodup_range'

/-- Numbers tell requests apart. -/
theorem Numbered.request?_eq (h : l.Numbered) (hr : r ∈ l.requests) :
    l.request? r.turn = some r := by
  have hnodup := h.nodup_turns
  unfold request?
  generalize l.requests = rs at hr hnodup
  induction rs with
  | nil => cases hr
  | cons s rs ih =>
    rw [List.map_cons, List.nodup_cons] at hnodup
    rw [List.find?_cons]
    rcases List.mem_cons.1 hr with heq | hmem
    · rw [heq]
      simp
    · -- The first request has another number, so the search goes on behind it.
      have hne : s.turn ≠ r.turn := by
        intro heq
        exact hnodup.1 (heq ▸ List.mem_map_of_mem hmem)
      have hbeq : (s.turn == r.turn) = false := by simpa using hne
      rw [hbeq]
      exact ih hmem hnodup.2

theorem Numbered.turn_le (h : l.Numbered) (hr : r ∈ l.requests) :
    1 ≤ r.turn ∧ r.turn ≤ l.requests.length := by
  have hmem : r.turn ∈ l.requests.map Request.turn := List.mem_map_of_mem hr
  rw [h, List.mem_range'_1] at hmem
  omega

/-! ## Changing the stage of a request -/

theorem request?_setStage (l : Lane) (turn : Nat) (stage : Stage) (other : Nat) :
    (l.setStage turn stage).request? other =
      (l.request? other).map fun r => if r.turn = turn then { r with stage } else r := by
  unfold request? setStage
  rw [List.find?_map]
  congr 2
  funext r
  simp only [Function.comp]
  split <;> rfl

theorem request?_setStage_self {turn : Nat} (h : l.request? turn = some r) (stage : Stage) :
    (l.setStage turn stage).request? turn = some { r with stage } := by
  rw [request?_setStage, h, Option.map_some, if_pos (turn_of_request? h)]

theorem request?_setStage_of_ne {turn other : Nat} (h : other ≠ turn) (l : Lane) (stage : Stage) :
    (l.setStage turn stage).request? other = l.request? other := by
  rw [request?_setStage]
  cases hr : l.request? other with
  | none => rfl
  | some r => rw [Option.map_some, if_neg (fun heq => h (turn_of_request? hr ▸ heq))]

theorem map_turn_setStage (l : Lane) (turn : Nat) (stage : Stage) :
    (l.setStage turn stage).requests.map Request.turn = l.requests.map Request.turn := by
  simp only [setStage, List.map_map]
  congr 1
  funext r
  simp only [Function.comp]
  split <;> rfl

theorem requests_setStage_congr {l l₁ : Lane} (h : l₁.requests = l.requests) (turn : Nat)
    (stage : Stage) : (l₁.setStage turn stage).requests = (l.setStage turn stage).requests := by
  simp only [setStage, h]

theorem Numbered.setStage (h : l.Numbered) (turn : Nat) (stage : Stage) :
    (l.setStage turn stage).Numbered := by
  unfold Numbered
  rw [map_turn_setStage, h]
  simp [Lane.setStage]

@[simp]
theorem mailbox_setStage (l : Lane) (turn : Nat) (stage : Stage) :
    (l.setStage turn stage).mailbox = l.mailbox := rfl

/-! ## Acceptance -/

theorem request?_accept (l : Lane) (options : Options) (turn : Nat) :
    (l.accept options).1.request? turn =
      (l.request? turn).or (if turn = l.requests.length + 1 then
        some ⟨l.requests.length + 1, options, l.tail, .queued⟩ else none) := by
  simp only [accept, request?, List.find?_append, List.find?_singleton, beq_iff_eq,
    @eq_comm _ turn]

theorem Numbered.accept (h : l.Numbered) (options : Options) : (l.accept options).1.Numbered := by
  unfold Numbered at *
  simp only [Lane.accept, List.map_append, List.map_cons, List.map_nil, List.length_append,
    List.length_cons, List.length_nil, Nat.zero_add, h, List.range'_concat, Nat.one_mul,
    Nat.add_comm 1]

/-- A request that exists is still the same after another one has been accepted. -/
theorem request?_accept_of_some {turn : Nat} (h : l.request? turn = some r) (options : Options) :
    (l.accept options).1.request? turn = some r := by
  rw [request?_accept, h, Option.some_or]

/-- A request after an acceptance is an earlier one or the new one. -/
theorem of_request?_accept {options : Options} {turn : Nat}
    (h : (l.accept options).1.request? turn = some r) :
    l.request? turn = some r ∨
      turn = l.requests.length + 1 ∧ r = ⟨l.requests.length + 1, options, l.tail, .queued⟩ := by
  rw [request?_accept] at h
  cases hr : l.request? turn with
  | some s =>
    rw [hr, Option.some_or] at h
    exact .inl h
  | none =>
    rw [hr, Option.none_or] at h
    split at h
    · rename_i heq
      exact .inr ⟨heq, (Option.some.inj h).symm⟩
    · cases h

/-! ## The steps of a request -/

/-- `l'` may differ from `l` in what has been read: neither the requests nor what is delivered or
installed has changed. -/
structure Keeps (l l' : Lane) : Prop where
  requests : l'.requests = l.requests
  tail : l'.tail = l.tail
  mailbox : l'.mailbox = l.mailbox
  lifecycle : l'.document.lifecycle? = l.document.lifecycle?
  buffers : l'.document.buffers? = l.document.buffers?
  parts : l'.document.parts = l.document.parts

/-- `l'` is `l` after a part has been read in a turn, and the reading has been noted. -/
structure Reads (l : Lane) (turn part : Nat) (l' : Lane) : Prop extends l.Keeps l' where
  reads : l'.reads = ⟨turn, part, (l.document.read part).1⟩ :: l.reads

/-- The work that a request for a document starts with. -/
def firstJob (l : Lane) : Job :=
  match l.document.body with
  | .project store lifecycle => .project store.parts.reverse lifecycle.receipt? .empty
  | .external .. => .external

/-- All that a step of a request can be. -/
inductive Moves (parser : Parser) (l : Lane) (r : Request) : Lane → Prop where
  | start : r.stage = .queued → l.released r.after = true →
      Moves parser l r (l.setStage r.turn (.running l.firstJob))
  | skip {part todo last records l₁} : r.stage = .running (.project (part :: todo) last records) →
      (l.document.read part).1 = .unavailable → l.Reads r.turn part l₁ →
      Moves parser l r (l₁.setStage r.turn (.running (.project todo last records)))
  | gather {part todo last records content version record l₁} :
      r.stage = .running (.project (part :: todo) last records) →
      (l.document.read part).1 = .content content version →
      (recordOf parser r last part content version).1 = .ok record → l.Reads r.turn part l₁ →
      Moves parser l r
        (l₁.setStage r.turn (.running (.project todo last (records.insert part record))))
  | fail {job failure l₁} : r.stage = .running job → l.Keeps l₁ →
      (l₁.reads = l.reads ∨ ∃ part, l.Reads r.turn part l₁) →
      Moves parser l r (l₁.fail r.turn failure)
  | install {last records outline} : r.stage = .running (.project [] last records) →
      Receipt.outline? ⟨.project records, r.turn⟩ = some outline →
      Moves parser l r ((l.mapDocument (·.install outline ⟨.project records, r.turn⟩)).setStage
        r.turn (.concluded (.ok ⟨.project records, r.turn⟩)))
  | hand {version l₁} : r.stage = .running .external → l.Reads r.turn 0 l₁ →
      Moves parser l r (l₁.setStage r.turn (.concluded (.ok ⟨.external version, r.turn⟩)))
  | deliver {outcome} : r.stage = .concluded outcome → Moves parser l r (l.deliver r.turn outcome)
  | signal : r.stage = .delivered → Moves parser l r (l.setStage r.turn .signalled)
  | finish : r.stage = .signalled → Moves parser l r (l.setStage r.turn .finished)

theorem start_eq (l : Lane) (turn : Nat) :
    l.start turn = l.setStage turn (.running l.firstJob) := by
  unfold start firstJob
  cases l.document.body <;> rfl

theorem reads_read (l : Lane) (turn part : Nat) : l.Reads turn part (l.read turn part).2 where
  requests := rfl
  tail := rfl
  mailbox := rfl
  lifecycle := l.document.lifecycle?_read part
  buffers := l.document.buffers?_read part
  parts := l.document.parts_read part
  reads := rfl

theorem Keeps.request? {l l₁ : Lane} (h : l.Keeps l₁) (turn : Nat) :
    l₁.request? turn = l.request? turn := by
  unfold Lane.request?
  rw [h.requests]

theorem Keeps.request?_eq_some {l l₁ : Lane} {turn : Nat} (h : l.Keeps l₁)
    (hr : l.request? turn = some r) : l₁.request? turn = some r :=
  (h.request? turn).trans hr

/-- Calls of the parser are counted beside the reading. -/
theorem Reads.withParses {l l₁ : Lane} {turn part : Nat} (h : l.Reads turn part l₁) (n : Nat) :
    l.Reads turn part { l₁ with parses := n } where
  requests := h.requests
  tail := h.tail
  mailbox := h.mailbox
  lifecycle := h.lifecycle
  buffers := h.buffers
  parts := h.parts
  reads := h.reads

theorem Reads.hand {l l₁ : Lane} {turn part : Nat} (h : l.Reads turn part l₁)
    (content : ByteArray) (version : Int) :
    l.Reads turn part { l₁ with document := (l₁.document.hand content version).1 } where
  requests := h.requests
  tail := h.tail
  mailbox := h.mailbox
  lifecycle := by
    rw [Document.lifecycle?_hand, h.lifecycle]
  buffers := by
    rw [Document.buffers?_hand, h.buffers]
  parts := by
    rw [Document.parts_hand, h.parts]
  reads := h.reads

theorem moves_readPart {part : Nat} {todo : List Nat} {last : Option Receipt}
    {records : NatMap Record} (h : r.stage = .running (.project (part :: todo) last records)) :
    l.Moves parser r (l.readPart parser r part todo last records) := by
  have hreads := l.reads_read r.turn part
  have hreading : (l.read r.turn part).1 = (l.document.read part).1 := rfl
  unfold readPart
  split
  rename_i reading l₁ heq
  rw [heq] at hreads hreading
  split
  · exact .skip h hreading.symm hreads
  · exact .fail h hreads.toKeeps (.inr ⟨part, hreads⟩)
  · exact .fail h hreads.toKeeps (.inr ⟨part, hreads⟩)
  · rename_i content version
    split
    rename_i result calls hresult
    cases result with
    | ok record =>
      exact .gather h hreading.symm (congrArg Prod.fst hresult) (hreads.withParses _)
    | error panic => exact .fail h (hreads.withParses _).toKeeps (.inr ⟨part, hreads.withParses _⟩)

theorem moves_workOutside (h : r.stage = .running .external) :
    l.Moves parser r (l.workOutside r) := by
  have hreads := l.reads_read r.turn 0
  unfold workOutside
  split
  rename_i reading l₁ heq
  rw [heq] at hreads
  split
  · exact .fail h hreads.toKeeps (.inr ⟨0, hreads⟩)
  · exact .fail h hreads.toKeeps (.inr ⟨0, hreads⟩)
  · exact .fail h hreads.toKeeps (.inr ⟨0, hreads⟩)
  · rename_i content version
    have hhanded := hreads.hand content version
    dsimp only
    split
    · exact .fail h hhanded.toKeeps (.inr ⟨0, hhanded⟩)
    · exact .hand h hhanded

theorem moves_conclude {last : Option Receipt} {records : NatMap Record}
    (h : r.stage = .running (.project [] last records)) :
    l.Moves parser r (l.conclude r records) := by
  unfold conclude
  dsimp only
  split
  · exact .fail h ⟨rfl, rfl, rfl, rfl, rfl, rfl⟩ (.inl rfl)
  · rename_i outline houtline
    exact .install h houtline

theorem advance_moves {turn : Nat} (h : l.advance parser turn = some l') :
    ∃ r, l.request? turn = some r ∧ l.Moves parser r l' := by
  unfold advance at h
  cases hr : l.request? turn with
  | none =>
    rw [hr] at h
    cases h
  | some r =>
    have hturn := turn_of_request? hr
    subst hturn
    rw [hr] at h
    refine ⟨r, rfl, ?_⟩
    dsimp only at h
    cases hstage : r.stage with
    | queued =>
      rw [hstage] at h
      dsimp only at h
      split at h
      · rename_i hreleased
        obtain rfl := Option.some.inj h
        rw [start_eq]
        exact .start hstage hreleased
      · cases h
    | running job =>
      rw [hstage] at h
      obtain rfl := Option.some.inj h
      match job with
      | .project [] last records => exact moves_conclude hstage
      | .project (part :: todo) last records => exact moves_readPart hstage
      | .external => exact moves_workOutside hstage
    | concluded outcome =>
      rw [hstage] at h
      obtain rfl := Option.some.inj h
      exact .deliver hstage
    | delivered =>
      rw [hstage] at h
      obtain rfl := Option.some.inj h
      exact .signal hstage
    | signalled =>
      rw [hstage] at h
      obtain rfl := Option.some.inj h
      exact .finish hstage
    | finished =>
      rw [hstage] at h
      cases h

/-- Whatever a step does besides, it moves one request on to its next stage. -/
theorem Moves.stage (h : l.Moves parser r l') :
    ∃ stage, r.stage.Next stage ∧ (r.stage = .queued → l.released r.after = true) ∧
      l'.requests = (l.setStage r.turn stage).requests ∧ l'.tail = l.tail := by
  cases h with
  | start hstage hreleased =>
    rw [hstage]
    exact ⟨_, .start _, fun _ => hreleased, rfl, rfl⟩
  | skip hstage _ hreads =>
    rw [hstage]
    exact ⟨_, .goOn _ _, nofun, requests_setStage_congr hreads.requests _ _, hreads.tail⟩
  | gather hstage _ _ hreads =>
    rw [hstage]
    exact ⟨_, .goOn _ _, nofun, requests_setStage_congr hreads.requests _ _, hreads.tail⟩
  | @fail job failure l₁ hstage hkeeps _ =>
    rw [hstage]
    have hrequests : (l₁.mapDocument .abort).requests = l.requests := hkeeps.requests
    exact ⟨_, .conclude _ (.error failure), nofun, requests_setStage_congr hrequests _ _,
      hkeeps.tail⟩
  | install hstage _ =>
    rw [hstage]
    exact ⟨_, .conclude _ _, nofun, rfl, rfl⟩
  | hand hstage hreads =>
    rw [hstage]
    exact ⟨_, .conclude _ _, nofun, requests_setStage_congr hreads.requests _ _, hreads.tail⟩
  | deliver hstage =>
    rw [hstage]
    exact ⟨_, .deliver _, nofun, rfl, rfl⟩
  | signal hstage =>
    rw [hstage]
    exact ⟨_, .signal, nofun, rfl, rfl⟩
  | finish hstage =>
    rw [hstage]
    exact ⟨_, .finish, nofun, rfl, rfl⟩

/-- A request that has not started can do nothing but start. -/
theorem Moves.eq_of_queued (h : l.Moves parser r l') (hqueued : r.stage = .queued) :
    l' = l.setStage r.turn (.running l.firstJob) := by
  cases h with
  | start _ _ => rfl
  | _ => simp_all

/-- Nothing is delivered by a step but what the request has come to. -/
theorem Moves.mailbox (h : l.Moves parser r l') :
    l'.mailbox = (r.stage.outcome?.map (r.turn, ·)).toList ++ l.mailbox := by
  cases h with
  | start hstage _ => simp [hstage, Stage.outcome?]
  | skip hstage _ hreads => simp [hstage, Stage.outcome?, hreads.mailbox]
  | gather hstage _ _ hreads => simp [hstage, Stage.outcome?, hreads.mailbox]
  | fail hstage hkeeps _ => simp [hstage, Stage.outcome?, Lane.fail, mapDocument, hkeeps.mailbox]
  | install hstage _ => simp [hstage, Stage.outcome?, mapDocument]
  | hand hstage hreads => simp [hstage, Stage.outcome?, hreads.mailbox]
  | deliver hstage => simp [hstage, Stage.outcome?, Lane.deliver]
  | signal hstage => simp [hstage, Stage.outcome?]
  | finish hstage => simp [hstage, Stage.outcome?]

/-! ## Dropping requests -/

theorem requests_foldl_drop (turns : List Nat) (l : Lane) :
    (turns.foldl drop l).requests =
      l.requests.map fun r => if r.turn ∈ turns then { r with stage := .finished } else r := by
  induction turns generalizing l with
  | nil => simp
  | cons t turns ih =>
    have hstep : (l.drop t).requests = (l.setStage t .finished).requests := rfl
    rw [List.foldl_cons, ih, hstep, setStage, List.map_map]
    apply List.map_congr_left
    intro r _
    by_cases h : r.turn = t
    · simp [h]
    · simp [h]

theorem tail_foldl_drop (turns : List Nat) (l : Lane) : (turns.foldl drop l).tail = l.tail := by
  induction turns generalizing l with
  | nil => rfl
  | cons t turns ih => exact ih (l.drop t)

theorem reads_foldl_drop (turns : List Nat) (l : Lane) : (turns.foldl drop l).reads = l.reads := by
  induction turns generalizing l with
  | nil => rfl
  | cons t turns ih => exact ih (l.drop t)

/-- The request behind each dropped one has been taken off the document, which keeps its parts. -/
theorem document_foldl_drop (turns : List Nat) (l : Lane) :
    (turns.foldl drop l).document =
      l.document.mapLifecycle fun c => { c with pending := c.pending - turns.length } := by
  induction turns generalizing l with
  | nil => exact (Document.mapLifecycle_id l.document).symm
  | cons t turns ih =>
    have hstep : (l.drop t).document = l.document.abort := rfl
    rw [List.foldl_cons, ih, hstep, Document.abort, Document.mapLifecycle_mapLifecycle]
    congr 1
    funext c
    simp only [Lifecycle.abort, Function.comp, List.length_cons, Nat.sub_sub, Nat.add_comm 1]

theorem outcome?_foldl_drop (turns : List Nat) (l : Lane) (turn : Nat) :
    (turns.foldl drop l).outcome? turn =
      if turn ∈ turns then some (.error .cancelled) else l.outcome? turn := by
  induction turns generalizing l with
  | nil => simp
  | cons t turns ih =>
    have hstep : (l.drop t).outcome? turn =
        if turn = t then some (.error .cancelled) else l.outcome? turn := by
      simp only [drop, Lane.outcome?, List.lookup_cons]
      split <;> rename_i hbeq <;> simp at hbeq <;> simp [hbeq]
    rw [List.foldl_cons, ih, hstep]
    by_cases hmem : turn ∈ turns
    · simp [hmem]
    · simp [hmem]

theorem Numbered.mem_queued_iff (h : l.Numbered) {turn : Nat} :
    turn ∈ l.queued ↔ ∃ r, l.request? turn = some r ∧ r.stage = .queued := by
  constructor
  · intro hmem
    obtain ⟨r, hr, rfl⟩ := List.mem_map.1 hmem
    obtain ⟨hr, hqueued⟩ := List.mem_filter.1 hr
    exact ⟨r, h.request?_eq hr, Stage.isQueued_iff.1 hqueued⟩
  · rintro ⟨r, hr, hqueued⟩
    refine List.mem_map.2 ⟨r, List.mem_filter.2 ⟨mem_of_request? hr, ?_⟩, turn_of_request? hr⟩
    exact Stage.isQueued_iff.2 hqueued

theorem Numbered.request?_dropQueued (h : l.Numbered) (turn : Nat) :
    l.dropQueued.request? turn = (l.request? turn).map fun r =>
      if r.stage.isQueued then { r with stage := .finished } else r := by
  have hfind : l.dropQueued.request? turn = (l.request? turn).map fun r =>
      if r.turn ∈ l.queued then { r with stage := .finished } else r := by
    unfold request? dropQueued
    rw [requests_foldl_drop, List.find?_map]
    congr 2
    funext r
    simp only [Function.comp]
    split <;> rfl
  rw [hfind]
  cases hr : l.request? turn with
  | none => rfl
  | some r =>
    have hiff : r.turn ∈ l.queued ↔ r.stage.isQueued = true := by
      rw [h.mem_queued_iff, turn_of_request? hr, hr, Stage.isQueued_iff]
      simp
    simp only [Option.map_some, hiff]

end Lane

end Reparse
