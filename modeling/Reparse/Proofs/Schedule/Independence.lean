import Reparse.Proofs.Schedule.Confluence

/-!
What a result does not depend on. The events of a session are written down one after the other, so
that they can be taken out and moved. A document and its requests are the same whether or not
anything happens to other documents, and a request that has been accepted does not feel what
becomes of the settings.
-/

namespace Reparse

open Relation

/-- A change of the settings. -/
inductive Settings.Change where
  | settings (settings : Settings)
  | taskComments (keywords : Keywords)
  | indentation (severity : Option Severity)

/-- What happens in a session. -/
inductive Event where
  | add (document : Document)
  | touch (id : Nat) (touch : Touch)
  | configure (change : Settings.Change)
  | enqueue (target : Option Nat) (version : LanguageVersion) (runtime : Bool)
  | advance (ticket : Ticket)
  | shutdown

/-- The event is about the given document, or about all. -/
def Event.concerns (id : Nat) : Event → Bool
  | add document => id == document.id
  | touch other _ => id == other
  | configure _ => true
  | enqueue target _ _ => some id == target
  | advance ticket => id == ticket.document
  | shutdown => true

namespace Workspace

variable {parser : Parser} {rule : Nat → TouchRule} {w w' v : Workspace} {e : Event} {id : Nat}

def configure (w : Workspace) : Settings.Change → Workspace
  | .settings settings => w.setSettings settings
  | .taskComments keywords => w.setTaskComments keywords
  | .indentation severity => w.setIndentation severity

@[simp]
theorem lanes_configure (w : Workspace) (change : Settings.Change) :
    (w.configure change).lanes = w.lanes := by
  cases change <;> rfl

/-- The event happens. -/
inductive Happens (parser : Parser) (rule : Nat → TouchRule) (w : Workspace) :
    Event → Workspace → Prop where
  | add {d : Document} : d.IsNew → w.lanes.get? d.id = none →
      Happens parser rule w (.add d) (w.add d)
  | touch {id : Nat} {d : Document} (t : Touch) : w.document? id = some d → rule id d t →
      Happens parser rule w (.touch id t) (w.mapDocument id t.apply)
  | configure (change : Settings.Change) :
      Happens parser rule w (.configure change) (w.configure change)
  | enqueue (target : Option Nat) (version : LanguageVersion) (runtime : Bool) :
      Happens parser rule w (.enqueue target version runtime) (w.enqueue target version runtime).1
  | advance {ticket : Ticket} {w' : Workspace} : w.advance parser ticket = some w' →
      Happens parser rule w (.advance ticket) w'
  | shutdown {w' : Workspace} : w.shutdown = some w' → Happens parser rule w .shutdown w'

/-- The events happen one after the other. -/
inductive Session (parser : Parser) (rule : Nat → TouchRule) :
    Workspace → List Event → Workspace → Prop where
  | nil (w : Workspace) : Session parser rule w [] w
  | cons {w v w' : Workspace} {e : Event} {events : List Event} : Happens parser rule w e v →
      Session parser rule v events w' → Session parser rule w (e :: events) w'

theorem Happens.step (h : Happens parser rule w e w') : Step parser rule w w' := by
  cases h with
  | add hnew hfree => exact .add hnew hfree
  | touch t hd hrule => exact .touch t hd hrule
  | configure change =>
    cases change with
    | settings settings => exact .setSettings settings
    | taskComments keywords => exact .setTaskComments keywords
    | indentation severity => exact .setIndentation severity
  | enqueue target version runtime => exact .enqueue target version runtime
  | advance hadvance => exact .advance hadvance
  | shutdown hshutdown => exact .shutdown hshutdown

theorem Session.run {events : List Event} (h : Session parser rule w events w') :
    Run parser rule w w' := by
  induction h with
  | nil w => exact .refl
  | cons he _ ih => exact .head he.step ih

theorem Step.exists_happens (h : Step parser rule w w') : ∃ e, Happens parser rule w e w' := by
  cases h with
  | add hnew hfree => exact ⟨_, .add hnew hfree⟩
  | touch t hd hrule => exact ⟨_, .touch t hd hrule⟩
  | setSettings settings => exact ⟨_, .configure (.settings settings)⟩
  | setTaskComments keywords => exact ⟨_, .configure (.taskComments keywords)⟩
  | setIndentation severity => exact ⟨_, .configure (.indentation severity)⟩
  | enqueue target version runtime => exact ⟨_, .enqueue target version runtime⟩
  | advance hadvance => exact ⟨_, .advance hadvance⟩
  | shutdown hshutdown => exact ⟨_, .shutdown hshutdown⟩

theorem Run.exists_session (h : Run parser rule w w') :
    ∃ events, Session parser rule w events w' := by
  induction h using ReflTransGen.head_induction_on with
  | refl => exact ⟨[], .nil w'⟩
  | head hstep _ ih =>
    obtain ⟨e, he⟩ := hstep.exists_happens
    obtain ⟨events, hsession⟩ := ih
    exact ⟨e :: events, .cons he hsession⟩

/-- Every step is an event, so a workspace is reachable if some session leads to it. -/
theorem reachable_iff_exists_session :
    Reachable parser rule w ↔
      ∃ settings events, Session parser rule (.ofSettings settings) events w := by
  constructor
  · rintro ⟨settings, hrun⟩
    exact ⟨settings, hrun.exists_session⟩
  · rintro ⟨settings, events, hsession⟩
    exact ⟨settings, hsession.run⟩

/-! ## Without the other documents -/

/-- `v` has the document with the given number and its requests from `w`, and no other document. -/
structure Mirrors (id : Nat) (w v : Workspace) : Prop where
  settings : v.settings = w.settings
  lane : v.lanes.get? id = w.lanes.get? id
  others : ∀ other, other ≠ id → v.lanes.get? other = none

/-- What does not concern the document leaves its lane and the settings. -/
theorem Happens.lane_of_not_concerns (h : Happens parser rule w e w')
    (hconcerns : e.concerns id = false) :
    w'.settings = w.settings ∧ w'.lanes.get? id = w.lanes.get? id := by
  cases h with
  | @add d hnew hfree =>
    have hne : id ≠ d.id := by simpa [Event.concerns] using hconcerns
    exact ⟨rfl, NatMap.get?_insert_of_ne hne _ _⟩
  | @touch other d t hd hrule =>
    have hne : id ≠ other := by simpa [Event.concerns] using hconcerns
    exact ⟨rfl, NatMap.get?_modify_of_ne hne _ _⟩
  | configure change => cases hconcerns
  | enqueue target version runtime =>
    rcases w.enqueue_cases target version runtime with ⟨_, heq⟩ | ⟨other, l, rfl, hl, heq⟩
    · rw [heq]
      exact ⟨rfl, rfl⟩
    · have hne : id ≠ other := by simpa [Event.concerns] using hconcerns
      rw [heq]
      exact ⟨rfl, NatMap.get?_insert_of_ne hne _ _⟩
  | @advance ticket w' hadvance =>
    have hne : id ≠ ticket.document := by simpa [Event.concerns] using hconcerns
    obtain ⟨l, l', r, -, -, -, rfl⟩ := advance_eq_some_iff.1 hadvance
    exact ⟨rfl, NatMap.get?_insert_of_ne hne _ _⟩
  | shutdown _ => cases hconcerns

theorem Mirrors.insert (h : Mirrors id w v) {w' v' : Workspace} {l : Lane}
    (hw : w'.settings = w.settings ∧ w'.lanes = w.lanes.insert id l)
    (hv : v'.settings = v.settings ∧ v'.lanes = v.lanes.insert id l) : Mirrors id w' v' := by
  refine ⟨?_, ?_, ?_⟩
  · rw [hv.1, hw.1, h.settings]
  · rw [hv.2, hw.2, NatMap.get?_insert_self, NatMap.get?_insert_self]
  · intro other hne
    rw [hv.2, NatMap.get?_insert_of_ne hne, h.others other hne]

theorem settings_of_shutdown (h : w.shutdown = some w') : w'.settings = w.settings := by
  unfold shutdown at h
  split at h
  · cases h
  · obtain rfl := Option.some.inj h
    rfl

theorem Mirrors.exists_shutdown (h : Mirrors id w v) (hshutdown : w.shutdown = some w') :
    ∃ v', v.shutdown = some v' ∧ Mirrors id w' v' := by
  obtain ⟨hidle, hlanes⟩ := shutdown_eq_some hshutdown
  have hidle' : v.isUnderWay = false := by
    refine isUnderWay_eq_false_iff.2 ?_
    intro other l hl
    by_cases hne : other = id
    · subst hne
      exact hidle other l (h.lane.symm.trans hl)
    · rw [h.others other hne] at hl
      cases hl
  obtain ⟨v', hv'⟩ : ∃ v', v.shutdown = some v' := by
    unfold shutdown
    rw [hidle']
    exact ⟨_, rfl⟩
  obtain ⟨-, hlanes'⟩ := shutdown_eq_some hv'
  refine ⟨v', hv', ?_, ?_, ?_⟩
  · rw [settings_of_shutdown hv', settings_of_shutdown hshutdown, h.settings]
  · rw [hlanes, hlanes', NatMap.get?_mapValues, NatMap.get?_mapValues, h.lane]
  · intro other hne
    rw [hlanes', NatMap.get?_mapValues, h.others other hne]
    rfl

/-- What concerns the document happens without the others just as well. -/
theorem Mirrors.follow (h : Mirrors id w v) (he : Happens parser rule w e w')
    (hconcerns : e.concerns id = true) :
    ∃ v', Happens parser rule v e v' ∧ Mirrors id w' v' := by
  cases he with
  | @add d hnew hfree =>
    obtain rfl : id = d.id := by simpa [Event.concerns] using hconcerns
    exact ⟨_, .add hnew (h.lane.trans hfree), h.insert ⟨rfl, rfl⟩ ⟨rfl, rfl⟩⟩
  | @touch other d t hd hrule =>
    obtain rfl : id = other := by simpa [Event.concerns] using hconcerns
    have hd' : v.document? id = some d := by rwa [document?, h.lane]
    refine ⟨_, .touch t hd' hrule, h.settings, ?_, ?_⟩
    · simp only [mapDocument, NatMap.get?_modify_self, h.lane]
    · intro other hne
      exact (NatMap.get?_modify_of_ne hne _ _).trans (h.others other hne)
  | configure change =>
    refine ⟨_, .configure change, ?_, ?_, ?_⟩
    · cases change with
      | settings settings => rfl
      | taskComments keywords => simp only [configure, setTaskComments, h.settings]
      | indentation severity => simp only [configure, setIndentation, h.settings]
    · rw [lanes_configure, lanes_configure, h.lane]
    · intro other hne
      rw [lanes_configure, h.others other hne]
  | enqueue target version runtime =>
    obtain rfl : some id = target := by simpa [Event.concerns] using hconcerns
    refine ⟨_, .enqueue (some id) version runtime, ?_⟩
    have hlane := h.lane
    cases hl : w.lanes.get? id with
    | none =>
      rw [hl] at hlane
      rw [enqueue_of_get?_eq_none hl, enqueue_of_get?_eq_none hlane]
      exact h
    | some l =>
      rw [hl] at hlane
      cases runtime with
      | false =>
        rw [enqueue_without_runtime hl, enqueue_without_runtime hlane]
        exact h
      | true =>
        rw [enqueue_of_get? hl, enqueue_of_get? hlane, h.settings]
        exact h.insert ⟨rfl, rfl⟩ ⟨h.settings.symm, rfl⟩
  | @advance ticket w' hadvance =>
    obtain ⟨l, l', r, hl, hr, hl', rfl⟩ := advance_eq_some_iff.1 hadvance
    obtain rfl : id = ticket.document := by simpa [Event.concerns] using hconcerns
    exact ⟨_, .advance (advance_eq_some_iff.2 ⟨l, l', r, h.lane.trans hl, hr, hl', rfl⟩),
      h.insert ⟨rfl, rfl⟩ ⟨rfl, rfl⟩⟩
  | shutdown hshutdown =>
    obtain ⟨v', hv', hmirrors⟩ := h.exists_shutdown hshutdown
    exact ⟨v', .shutdown hv', hmirrors⟩

theorem Mirrors.session {events : List Event} (hsession : Session parser rule w events w')
    (h : Mirrors id w v) :
    ∃ v', Session parser rule v (events.filter (Event.concerns id)) v' ∧ Mirrors id w' v' := by
  induction hsession generalizing v with
  | nil w => exact ⟨v, .nil v, h⟩
  | @cons w u w' e events he _ ih =>
    cases hconcerns : e.concerns id with
    | true =>
      obtain ⟨v₁, hv₁, hmirrors⟩ := h.follow he hconcerns
      obtain ⟨v', hv', hmirrors'⟩ := ih hmirrors
      refine ⟨v', ?_, hmirrors'⟩
      rw [List.filter_cons, if_pos hconcerns]
      exact .cons hv₁ hv'
    | false =>
      obtain ⟨hsettings, hlane⟩ := he.lane_of_not_concerns hconcerns
      have hmirrors : Mirrors id u v :=
        ⟨h.settings.trans hsettings.symm, h.lane.trans hlane.symm, h.others⟩
      obtain ⟨v', hv', hmirrors'⟩ := ih hmirrors
      refine ⟨v', ?_, hmirrors'⟩
      rw [List.filter_cons, if_neg (by rw [hconcerns]; nofun)]
      exact hv'

theorem Session.of_play {order : List Ticket} (h : w.play parser order = some w') :
    Session parser rule w (order.map .advance) w' := by
  induction order generalizing w with
  | nil =>
    obtain rfl := Option.some.inj h
    exact .nil w
  | cons t order ih =>
    obtain ⟨u, hu, hrest⟩ := play_cons_eq_some.1 h
    exact .cons (.advance hu) (ih hrest)

theorem Session.play {order : List Ticket}
    (h : Session parser rule w (order.map .advance) w') : w.play parser order = some w' := by
  induction order generalizing w with
  | nil =>
    cases h
    rfl
  | cons t order ih =>
    cases h with
    | cons he hrest =>
      cases he with
      | advance hadvance => exact play_cons_eq_some.2 ⟨_, hadvance, ih hrest⟩

/-- Without the other documents, a drain goes on as it did for the document. -/
theorem Mirrors.drains (h : Mirrors id w v) {order : List Ticket} (hw : Drains parser w order w') :
    ∃ order' v', Drains parser v order' v' ∧ Mirrors id w' v' := by
  have hsession : Session parser (fun _ _ _ => False) w (order.map .advance) w' :=
    .of_play hw.played
  obtain ⟨v', hsession', hmirrors⟩ := h.session hsession
  rw [List.filter_map] at hsession'
  refine ⟨_, v', ⟨hsession'.play, ?_⟩, hmirrors⟩
  intro t
  cases hadvance : v'.advance parser t with
  | none => rfl
  | some v'' =>
    obtain ⟨l, l', r, hl, hr, hl', -⟩ := advance_eq_some_iff.1 hadvance
    by_cases ht : t.document = id
    · have hlane : w'.lanes.get? t.document = some l := by rw [ht, ← hmirrors.lane, ← ht, hl]
      have hstep := advance_eq_some_iff.2 ⟨l, l', r, hlane, hr, hl', rfl⟩
      rw [hw.atRest] at hstep
      cases hstep
    · rw [hmirrors.others _ ht] at hl
      cases hl

end Workspace

/-! ## Settings that change later -/

namespace Request

variable {n : Nat}

/-- The request without its options if it is behind the given one. -/
def forgetOptions (n : Nat) (r : Request) : Request :=
  if n < r.turn then { r with options := .standard } else r

@[simp]
theorem turn_forgetOptions (r : Request) : (r.forgetOptions n).turn = r.turn := by
  unfold forgetOptions
  split <;> rfl

@[simp]
theorem stage_forgetOptions (r : Request) : (r.forgetOptions n).stage = r.stage := by
  unfold forgetOptions
  split <;> rfl

theorem forgetOptions_of_le {r : Request} (h : r.turn ≤ n) : r.forgetOptions n = r :=
  if_neg (Nat.not_lt.2 h)

end Request

namespace Lane

variable {parser : Parser} {rule : TouchRule} {l l₁ l₂ l₁' l₂' : Lane} {n : Nat}

/-- The lane without the options of the requests behind the given one. -/
def forgetLater (n : Nat) (l : Lane) : Lane :=
  l.mapRequests (·.forgetOptions n)

/-- Two lanes that differ at most in the options of the requests behind the given one, which
exists. -/
structure Alike (n : Nat) (l₁ l₂ : Lane) : Prop where
  one_le : 1 ≤ n
  le_length : n ≤ l₁.requests.length
  same : l₁.forgetLater n = l₂.forgetLater n

theorem Numbered.alike (h : l.Numbered) (hn : (l.request? n).isSome = true) : l.Alike n l := by
  obtain ⟨r, hr⟩ := Option.isSome_iff_exists.1 hn
  obtain ⟨hone, hle⟩ := h.turn_le (mem_of_request? hr)
  rw [turn_of_request? hr] at hone hle
  exact ⟨hone, hle, rfl⟩

theorem forgetLater_accept (h : n ≤ l.requests.length) (options : Options) :
    (l.accept options).1.forgetLater n = ((l.forgetLater n).accept .standard).1 := by
  simp [forgetLater, mapRequests, accept, Request.forgetOptions, Nat.lt_succ_of_le h]

theorem advance_forgetLater {turn : Nat} (h : turn ≤ n) :
    (l.forgetLater n).advance parser turn = (l.advance parser turn).map (forgetLater n) := by
  refine advance_mapRequests ⟨fun r => r.turn_forgetOptions, ?_⟩ ?_
  · intro r hr
    exact Request.forgetOptions_of_le (hr ▸ h)
  · intro p _
    rw [Request.stage_forgetOptions]

theorem queued_forgetLater (n : Nat) (l : Lane) : (l.forgetLater n).queued = l.queued := by
  unfold queued forgetLater mapRequests
  simp only [List.filter_map, List.map_map, Function.comp_def, Request.stage_forgetOptions,
    Request.turn_forgetOptions]

theorem drop_forgetLater (n : Nat) (l : Lane) (turn : Nat) :
    (l.forgetLater n).drop turn = (l.drop turn).forgetLater n := by
  simp only [drop, forgetLater, mapRequests, mapDocument, setStage, List.map_map]
  congr 2
  funext r
  simp only [Function.comp, Request.turn_forgetOptions]
  split
  · unfold Request.forgetOptions
    dsimp only
    split <;> rfl
  · rfl

theorem dropQueued_forgetLater (n : Nat) (l : Lane) :
    (l.forgetLater n).dropQueued = l.dropQueued.forgetLater n := by
  unfold dropQueued
  rw [queued_forgetLater]
  generalize l.queued = turns
  induction turns generalizing l with
  | nil => rfl
  | cons t turns ih => rw [List.foldl_cons, drop_forgetLater, ih, List.foldl_cons]

/-! ### Alike lanes stay alike -/

theorem Alike.mapDocument (h : l₁.Alike n l₂) (f : Document → Document) :
    (l₁.mapDocument f).Alike n (l₂.mapDocument f) :=
  ⟨h.one_le, h.le_length, congrArg (·.mapDocument f) h.same⟩

theorem Alike.accept (h : l₁.Alike n l₂) (options₁ options₂ : Options) :
    (l₁.accept options₁).1.Alike n (l₂.accept options₂).1 := by
  have hlength : l₁.requests.length = l₂.requests.length := by
    have hsame := congrArg (fun l : Lane => l.requests.length) h.same
    simpa [forgetLater, mapRequests] using hsame
  refine ⟨h.one_le, ?_, ?_⟩
  · exact Nat.le_trans h.le_length (by simp [Lane.accept])
  · rw [forgetLater_accept h.le_length, forgetLater_accept (hlength ▸ h.le_length), h.same]

theorem Alike.dropQueued (h : l₁.Alike n l₂) : l₁.dropQueued.Alike n l₂.dropQueued := by
  refine ⟨h.one_le, ?_, ?_⟩
  · unfold Lane.dropQueued
    rw [requests_foldl_drop, List.length_map]
    exact h.le_length
  · rw [← dropQueued_forgetLater, ← dropQueued_forgetLater, h.same]

theorem Alike.advance (h : l₁.Alike n l₂) {turn : Nat} (hle : turn ≤ n)
    (h₁ : l₁.advance parser turn = some l₁') :
    ∃ l₂', l₂.advance parser turn = some l₂' ∧ l₁'.Alike n l₂' := by
  have hsame := congrArg (Lane.advance parser · turn) h.same
  simp only [advance_forgetLater hle, h₁, Option.map_some] at hsame
  obtain ⟨l₂', h₂, heq⟩ := Option.map_eq_some_iff.1 hsame.symm
  refine ⟨l₂', h₂, h.one_le, ?_, heq.symm⟩
  obtain ⟨r, hr, hmoves⟩ := advance_moves h₁
  obtain ⟨stage, -, -, hrequests, -⟩ := hmoves.stage
  rw [hrequests, setStage, List.length_map]
  exact h.le_length

theorem Alike.outcome? (h : l₁.Alike n l₂) (turn : Nat) :
    l₁.outcome? turn = l₂.outcome? turn := by
  have hforget : ∀ l : Lane, (l.forgetLater n).outcome? turn = l.outcome? turn := fun _ => rfl
  rw [← hforget l₁, h.same, hforget]

/-- Two lanes that are alike, or in which the given request has come to the same result. -/
def Agree (n : Nat) (l₁ l₂ : Lane) : Prop :=
  l₁.Alike n l₂ ∨ ∃ outcome, l₁.result? n = some outcome ∧ l₂.result? n = some outcome

/-- Where the request has signalled, it has come to the same result in both. -/
theorem Alike.exists_result? (h : l₁.Alike n l₂) (h₁ : l₁.Chained) (h₂ : l₂.Chained)
    {r : Request} (hr : l₁.request? n = some r) (hsignalled : r.stage.hasSignalled = true) :
    ∃ outcome, l₁.result? n = some outcome ∧ l₂.result? n = some outcome := by
  have hdelivered := h₁.delivered n r hr
  rw [Stage.hasDelivered_of_hasSignalled hsignalled] at hdelivered
  obtain ⟨outcome, hout⟩ := Option.isSome_iff_exists.1 hdelivered.symm
  exact ⟨outcome, h₁.result?_eq_some_iff.2 (.inl hout),
    h₂.result?_eq_some_iff.2 (.inl (h.outcome? n ▸ hout))⟩

theorem Alike.agree_of_advance (h : l₁.Alike n l₂) (hchain₁ : l₁.Chained) (hchain₂ : l₂.Chained)
    {turn : Nat} (h₁ : l₁.advance parser turn = some l₁')
    (h₂ : l₂.advance parser turn = some l₂') : l₁'.Agree n l₂' := by
  by_cases hle : turn ≤ n
  · obtain ⟨m, hm, halike⟩ := h.advance hle h₁
    obtain rfl := Option.some.inj (h₂.symm.trans hm)
    exact .inl halike
  · -- Only behind a request that has signalled can another one take a step.
    obtain ⟨r, hr⟩ := hchain₁.numbered.exists_request? h.one_le h.le_length
    have hsignalled := hchain₁.signalled_of_advance (Nat.lt_of_not_le hle) hr h₁
    obtain ⟨outcome, hres₁, hres₂⟩ := h.exists_result? hchain₁ hchain₂ hr hsignalled
    have hstep₁ : Lane.Step parser (fun _ _ => False) l₁ l₁' := .advance h₁
    have hstep₂ : Lane.Step parser (fun _ _ => False) l₂ l₂' := .advance h₂
    exact .inr ⟨outcome, hchain₁.result?_step hstep₁ hres₁, hchain₂.result?_step hstep₂ hres₂⟩

end Lane

namespace Workspace

variable {parser : Parser} {rule : Nat → TouchRule} {w w' w₁ w₂ w₁' w₂' : Workspace} {e : Event}
  {id n : Nat}

/-- What happens to two alike lanes at once leaves them alike, or the request has come to a result
in both. -/
theorem Happens.agree_of_alike (hreach₁ : Reachable parser rule w₁)
    (hreach₂ : Reachable parser rule w₂) (h₁ : Happens parser rule w₁ e w₁')
    (h₂ : Happens parser rule w₂ e w₂') {l₁ l₂ : Lane} (hl₁ : w₁.lanes.get? id = some l₁)
    (hl₂ : w₂.lanes.get? id = some l₂) (halike : l₁.Alike n l₂) :
    ∃ l₁' l₂', w₁'.lanes.get? id = some l₁' ∧ w₂'.lanes.get? id = some l₂' ∧
      l₁'.Agree n l₂' := by
  cases hconcerns : e.concerns id with
  | false =>
    have hlane₁ := (h₁.lane_of_not_concerns hconcerns).2
    have hlane₂ := (h₂.lane_of_not_concerns hconcerns).2
    exact ⟨l₁, l₂, hlane₁.trans hl₁, hlane₂.trans hl₂, .inl halike⟩
  | true =>
    cases h₁ with
    | @add d _ hfree =>
      obtain rfl : id = d.id := by simpa [Event.concerns] using hconcerns
      rw [hl₁] at hfree
      cases hfree
    | @touch other d t hd hrule =>
      obtain rfl : id = other := by simpa [Event.concerns] using hconcerns
      cases h₂ with
      | touch _ _ _ =>
        refine ⟨_, _, ?_, ?_, .inl (halike.mapDocument t.apply)⟩
        · rw [mapDocument, NatMap.get?_modify_self, hl₁]
          rfl
        · rw [mapDocument, NatMap.get?_modify_self, hl₂]
          rfl
    | configure change =>
      cases h₂ with
      | configure _ =>
        exact ⟨l₁, l₂, by rw [lanes_configure, hl₁], by rw [lanes_configure, hl₂], .inl halike⟩
    | enqueue target version runtime =>
      obtain rfl : some id = target := by simpa [Event.concerns] using hconcerns
      cases h₂ with
      | enqueue _ _ _ =>
        cases runtime with
        | false =>
          rw [enqueue_without_runtime hl₁, enqueue_without_runtime hl₂]
          exact ⟨l₁, l₂, hl₁, hl₂, .inl halike⟩
        | true =>
          rw [enqueue_of_get? hl₁, enqueue_of_get? hl₂]
          exact ⟨_, _, NatMap.get?_insert_self _ _ _, NatMap.get?_insert_self _ _ _,
            .inl (halike.accept _ _)⟩
    | @advance ticket w₁' hadvance =>
      obtain rfl : id = ticket.document := by simpa [Event.concerns] using hconcerns
      cases h₂ with
      | advance hadvance₂ =>
        obtain ⟨a, l₁', r₁, ha, -, hl₁', rfl⟩ := advance_eq_some_iff.1 hadvance
        obtain ⟨b, l₂', r₂, hb, -, hl₂', rfl⟩ := advance_eq_some_iff.1 hadvance₂
        obtain rfl := Option.some.inj (hl₁.symm.trans ha)
        obtain rfl := Option.some.inj (hl₂.symm.trans hb)
        exact ⟨l₁', l₂', NatMap.get?_insert_self _ _ _, NatMap.get?_insert_self _ _ _,
          halike.agree_of_advance (hreach₁.lane hl₁).chained (hreach₂.lane hl₂).chained hl₁' hl₂'⟩
    | shutdown hshutdown =>
      cases h₂ with
      | shutdown hshutdown₂ =>
        refine ⟨l₁.dropQueued, l₂.dropQueued, ?_, ?_, .inl halike.dropQueued⟩
        · rw [(shutdown_eq_some hshutdown).2, NatMap.get?_mapValues, hl₁]
          rfl
        · rw [(shutdown_eq_some hshutdown₂).2, NatMap.get?_mapValues, hl₂]
          rfl

theorem Reachable.result?_run (h : Reachable parser rule w) (hrun : Run parser rule w w') {l : Lane}
    (hl : w.lanes.get? id = some l) {outcome : Outcome} (hres : l.result? n = some outcome) :
    ∃ l', w'.lanes.get? id = some l' ∧ l'.result? n = some outcome := by
  obtain ⟨l', hl', hlane⟩ := hrun.lane hl
  exact ⟨l', hl', (h.lane hl).chained.result?_run hlane hres⟩

theorem Happens.agree (hreach₁ : Reachable parser rule w₁) (hreach₂ : Reachable parser rule w₂)
    (h₁ : Happens parser rule w₁ e w₁') (h₂ : Happens parser rule w₂ e w₂') {l₁ l₂ : Lane}
    (hl₁ : w₁.lanes.get? id = some l₁) (hl₂ : w₂.lanes.get? id = some l₂)
    (hagree : l₁.Agree n l₂) :
    ∃ l₁' l₂', w₁'.lanes.get? id = some l₁' ∧ w₂'.lanes.get? id = some l₂' ∧
      l₁'.Agree n l₂' := by
  rcases hagree with halike | ⟨outcome, hres₁, hres₂⟩
  · exact h₁.agree_of_alike hreach₁ hreach₂ h₂ hl₁ hl₂ halike
  · obtain ⟨l₁', hl₁', hres₁'⟩ := hreach₁.result?_run (.single h₁.step) hl₁ hres₁
    obtain ⟨l₂', hl₂', hres₂'⟩ := hreach₂.result?_run (.single h₂.step) hl₂ hres₂
    exact ⟨l₁', l₂', hl₁', hl₂', .inr ⟨outcome, hres₁', hres₂'⟩⟩

theorem Session.agree {events : List Event} (hreach₁ : Reachable parser rule w₁)
    (hreach₂ : Reachable parser rule w₂) (h₁ : Session parser rule w₁ events w₁')
    (h₂ : Session parser rule w₂ events w₂') {l₁ l₂ : Lane}
    (hl₁ : w₁.lanes.get? id = some l₁) (hl₂ : w₂.lanes.get? id = some l₂)
    (hagree : l₁.Agree n l₂) :
    ∃ l₁' l₂', w₁'.lanes.get? id = some l₁' ∧ w₂'.lanes.get? id = some l₂' ∧
      l₁'.Agree n l₂' := by
  induction h₁ generalizing w₂ l₁ l₂ with
  | nil w =>
    cases h₂
    exact ⟨l₁, l₂, hl₁, hl₂, hagree⟩
  | cons he₁ _ ih =>
    cases h₂ with
    | cons he₂ hrest₂ =>
      obtain ⟨m₁, m₂, hm₁, hm₂, hagree'⟩ := he₁.agree hreach₁ hreach₂ he₂ hl₁ hl₂ hagree
      exact ih (hreach₁.run (.single he₁.step)) (hreach₂.run (.single he₂.step)) hrest₂ hm₁ hm₂
        hagree'

/-- Alike lanes can be led on together until the request has signalled in both. -/
theorem Reachable.exists_play_of_alike (hreach₁ : Reachable parser rule w₁)
    (hreach₂ : Reachable parser rule w₂) {l₁ l₂ : Lane} (hl₁ : w₁.lanes.get? id = some l₁)
    (hl₂ : w₂.lanes.get? id = some l₂) (halike : l₁.Alike n l₂) :
    ∃ order v₁ v₂ m₁ m₂ outcome, w₁.play parser order = some v₁ ∧
      w₂.play parser order = some v₂ ∧ v₁.lanes.get? id = some m₁ ∧ v₂.lanes.get? id = some m₂ ∧
      m₁.result? n = some outcome ∧ m₂.result? n = some outcome := by
  induction hleft : w₁.stepsLeft using Nat.strongRecOn generalizing w₁ w₂ l₁ l₂ with
  | ind left ih =>
    subst hleft
    have hchain₁ := (hreach₁.lane hl₁).chained
    have hchain₂ := (hreach₂.lane hl₂).chained
    obtain ⟨r, hr⟩ := hchain₁.numbered.exists_request? halike.one_le halike.le_length
    by_cases hfinished : r.stage = .finished
    · obtain ⟨outcome, hres₁, hres₂⟩ :=
        halike.exists_result? hchain₁ hchain₂ hr (by rw [hfinished]; rfl)
      exact ⟨[], w₁, w₂, l₁, l₂, outcome, rfl, rfl, hl₁, hl₂, hres₁, hres₂⟩
    · obtain ⟨s, hs, hunfinished, hfront⟩ :=
        Lane.exists_earliest (Lane.mem_of_request? hr) hfinished
      have hle : s.turn ≤ n := by
        apply Nat.le_of_not_lt
        intro hlt
        rw [← Lane.turn_of_request? hr] at hlt
        exact hfinished (hfront r (Lane.mem_of_request? hr) hlt)
      obtain ⟨v₁, hv₁⟩ := Option.isSome_iff_exists.1
        (hreach₁.isSome_advance_of_earliest hl₁ hs hunfinished hfront)
      obtain ⟨a, l₁', q, ha, -, hl₁', hv₁'⟩ := advance_eq_some_iff.1 hv₁
      obtain rfl := Option.some.inj (hl₁.symm.trans ha)
      obtain ⟨l₂', hl₂', halike'⟩ := halike.advance hle hl₁'
      obtain ⟨v₂, hv₂⟩ := Option.isSome_iff_exists.1
        (isSome_advance hl₂ (Option.isSome_of_eq_some hl₂'))
      obtain ⟨b, l₂'', q', hb, -, hl₂'', hv₂'⟩ := advance_eq_some_iff.1 hv₂
      obtain rfl := Option.some.inj (hl₂.symm.trans hb)
      obtain rfl := Option.some.inj (hl₂'.symm.trans hl₂'')
      have hm₁ : v₁.lanes.get? id = some l₁' := by
        rw [hv₁']
        exact NatMap.get?_insert_self _ _ _
      have hm₂ : v₂.lanes.get? id = some l₂' := by
        rw [hv₂']
        exact NatMap.get?_insert_self _ _ _
      obtain ⟨order, u₁, u₂, m₁, m₂, outcome, hplay₁, hplay₂, hrest⟩ :=
        ih _ (hreach₁.stepsLeft_lt hv₁) (hreach₁.run (.single (.advance hv₁)))
          (hreach₂.run (.single (.advance hv₂))) hm₁ hm₂ halike' rfl
      exact ⟨⟨id, s.turn⟩ :: order, u₁, u₂, m₁, m₂, outcome,
        play_cons_eq_some.2 ⟨v₁, hv₁, hplay₁⟩, play_cons_eq_some.2 ⟨v₂, hv₂, hplay₂⟩, hrest⟩

/-- A result that is known on one way to the end is delivered on every way. -/
theorem Reachable.outcome?_of_drains (h : Reachable parser rule w) {order order' : List Ticket}
    (hplay : w.play parser order = some v) {m : Lane} (hm : v.lanes.get? id = some m)
    {outcome : Outcome} (hres : m.result? n = some outcome) {a : Workspace}
    (ha : Drains parser w order' a) : a.outcome? ⟨id, n⟩ = some outcome := by
  have hreach : Reachable parser rule v := h.run (run_play hplay)
  obtain ⟨rest, d, hd⟩ := hreach.exists_drains
  have hdrains : Drains parser w (order ++ rest) d := by
    refine ⟨?_, hd.atRest⟩
    rw [play_append, hplay]
    exact hd.played
  obtain rfl := h.drains_unique ha hdrains
  have hreach' : Reachable parser rule a := hreach.run (run_play hd.played)
  obtain ⟨l, hl, hres'⟩ := hreach.result?_run (run_play hd.played) hm hres
  rcases (hreach'.lane hl).chained.result?_eq_some_iff.1 hres' with hout | ⟨r, hr, hstage⟩
  · rwa [outcome?_of_get? hl]
  · rw [hreach'.finished_of_atRest hd.atRest hl (Lane.mem_of_request? hr)] at hstage
    cases hstage

theorem Reachable.outcome?_eq_of_agree (hreach₁ : Reachable parser rule w₁)
    (hreach₂ : Reachable parser rule w₂) {l₁ l₂ : Lane} (hl₁ : w₁.lanes.get? id = some l₁)
    (hl₂ : w₂.lanes.get? id = some l₂) (hagree : l₁.Agree n l₂) {order order' : List Ticket}
    {a b : Workspace} (ha : Drains parser w₁ order a) (hb : Drains parser w₂ order' b) :
    a.outcome? ⟨id, n⟩ = b.outcome? ⟨id, n⟩ := by
  rcases hagree with halike | ⟨outcome, hres₁, hres₂⟩
  · obtain ⟨_, v₁, v₂, m₁, m₂, outcome, hplay₁, hplay₂, hm₁, hm₂, hres₁, hres₂⟩ :=
      hreach₁.exists_play_of_alike hreach₂ hl₁ hl₂ halike
    rw [hreach₁.outcome?_of_drains hplay₁ hm₁ hres₁ ha,
      hreach₂.outcome?_of_drains hplay₂ hm₂ hres₂ hb]
  · rw [hreach₁.outcome?_of_drains (play_nil w₁) hl₁ hres₁ ha,
      hreach₂.outcome?_of_drains (play_nil w₂) hl₂ hres₂ hb]

/-! ## What a result does not depend on -/

/-- Results depend neither on the order of the steps, nor on other documents, nor on settings that
change later. Whatever has happened in a session, requests that are left to themselves come to the
same end in every order: to the same results, the same installed outlines, the same readings in the
same order. It is the end of a drain of one request after the other, if none is under way. If all
events about other documents are taken out of the session, a document and its requests are the
same, and they come to the same end. And for a request that has been accepted, it makes no
difference to its result whether the settings change now or after the drain. -/
theorem results_independent {settings : Settings} {events : List Event}
    (hsession : Session parser rule (.ofSettings settings) events w) :
    (∀ order order' a b, Drains parser w order a → Drains parser w order' b → a = b) ∧
    (w.isUnderWay = false → ∀ order a, Drains parser w order a → a = w.drain parser) ∧
    (∀ id, ∃ v, Session parser rule (.ofSettings settings) (events.filter (Event.concerns id)) v ∧
      v.settings = w.settings ∧ v.lanes.get? id = w.lanes.get? id ∧
      ∀ order order' a b, Drains parser w order a → Drains parser v order' b →
        b.lanes.get? id = a.lanes.get? id) ∧
    (∀ t, (w.request? t).isSome = true → ∀ change later w₁ w₂,
      Session parser rule w (.configure change :: later) w₁ → Session parser rule w later w₂ →
      ∀ order order' a b, Drains parser w₁ order a → Drains parser w₂ order' b →
        (b.configure change).outcome? t = a.outcome? t) := by
  have hreach : Reachable parser rule w :=
    reachable_iff_exists_session.2 ⟨settings, events, hsession⟩
  refine ⟨?_, ?_, ?_, ?_⟩
  · intro order order' a b ha hb
    exact hreach.drains_unique ha hb
  · intro hidle order a ha
    obtain ⟨_, hdrains⟩ := hreach.drains_drain hidle
    exact hreach.drains_unique ha hdrains
  · intro id
    have hstart : Mirrors id (ofSettings settings) (ofSettings settings) := by
      refine ⟨rfl, rfl, ?_⟩
      intro other _
      exact NatMap.get?_empty other
    obtain ⟨v, hv, hmirrors⟩ := hstart.session hsession
    refine ⟨v, hv, hmirrors.settings, hmirrors.lane, ?_⟩
    intro order order' a b ha hb
    have hreach' : Reachable parser rule v := ⟨settings, hv.run⟩
    obtain ⟨_, v', hv', hmirrors'⟩ := hmirrors.drains ha
    obtain rfl := hreach'.drains_unique hb hv'
    exact hmirrors'.lane
  · intro t ht change later w₁ w₂ h₁ h₂ order order' a b ha hb
    obtain ⟨id, n⟩ := t
    obtain ⟨r, hr⟩ := Option.isSome_iff_exists.1 ht
    obtain ⟨l, hl, hrl⟩ := Option.bind_eq_some_iff.1 hr
    have halike : l.Alike n l :=
      (hreach.lane hl).chained.numbered.alike (Option.isSome_of_eq_some hrl)
    cases h₁ with
    | cons he h₁ =>
      cases he with
      | configure _ =>
        have hreach' : Reachable parser rule (w.configure change) :=
          hreach.run (.single (Happens.configure change).step)
        have hl' : (w.configure change).lanes.get? id = some l := by rw [lanes_configure, hl]
        obtain ⟨l₁, l₂, hl₁, hl₂, hagree⟩ :=
          h₁.agree hreach' hreach h₂ hl' hl (.inl halike)
        have hout := (hreach'.run h₁.run).outcome?_eq_of_agree (hreach.run h₂.run) hl₁ hl₂ hagree
          ha hb
        rw [outcome?, lanes_configure]
        exact hout.symm

/-- Two documents come in and are to be parsed. -/
def bothQueued : List Event :=
  [.add ⟨1, none, none, .project (.buffers .empty) .fresh⟩,
    .touch 1 (.edit (.set 0 "x = 1".toUTF8)),
    .add ⟨2, none, none, .project (.buffers .empty) .fresh⟩,
    .enqueue (some 1) .standard true, .touch 2 (.edit (.set 0 "y = 2".toUTF8)),
    .enqueue (some 2) .standard true]

/-- The documents wait to be parsed. -/
def together : Workspace :=
  let w := (ofSettings .standard).add ⟨1, none, none, .project (.buffers .empty) .fresh⟩
  let w := w.mapDocument 1 (Touch.apply · (.edit (.set 0 "x = 1".toUTF8)))
  let w := w.add ⟨2, none, none, .project (.buffers .empty) .fresh⟩
  let w := (w.enqueue (some 1) .standard true).1
  let w := w.mapDocument 2 (Touch.apply · (.edit (.set 0 "y = 2".toUTF8)))
  (w.enqueue (some 2) .standard true).1

theorem session_together :
    Session .plain (fun _ _ _ => True) (.ofSettings .standard) bothQueued together := by
  refine .cons (.add ⟨rfl, rfl⟩ rfl) (.cons (.touch _ rfl trivial) ?_)
  refine .cons (.add ⟨rfl, rfl⟩ rfl) (.cons (.enqueue _ _ _) ?_)
  exact .cons (.touch _ rfl trivial) (.cons (.enqueue _ _ _) (.nil _))

/-- The document is to be parsed again, with or without a change of the settings before. -/
def requeued (change : Option Settings.Change) : Workspace :=
  (((change.map together.configure).getD together).enqueue (some 1) .standard true).1

theorem together_independent :
    Session .plain (fun _ _ _ => True) (.ofSettings .standard) bothQueued together ∧
    together.count = 2 ∧ (∃ order, Drains .plain together order (together.drain .plain)) ∧
    (∀ order a, Drains .plain together order a → a = together.drain .plain) ∧
    (∃ v, Session .plain (fun _ _ _ => True) (.ofSettings .standard)
      (bothQueued.filter (Event.concerns 1)) v ∧
      (bothQueued.filter (Event.concerns 1)).length = 3 ∧
      v.lanes.get? 1 = together.lanes.get? 1) ∧
    ∃ change : Settings.Change, (together.configure change).settings.bindNames = false ∧
      (((requeued none).drain .plain).configure change).outcome? ⟨1, 1⟩ =
        ((requeued (some change)).drain .plain).outcome? ⟨1, 1⟩ := by
  have hreach : Reachable .plain (fun _ _ _ => True) together := ⟨.standard, session_together.run⟩
  obtain ⟨-, honce, hothers, hlater⟩ := results_independent session_together
  let change : Settings.Change := .settings { Settings.standard with bindNames := false }
  have hwithout : Session .plain (fun _ _ _ => True) together [.enqueue (some 1) .standard true]
      (requeued none) := .cons (.enqueue _ _ _) (.nil _)
  have hwith : Session .plain (fun _ _ _ => True) together
      [.configure change, .enqueue (some 1) .standard true] (requeued (some change)) :=
    .cons (.configure change) (.cons (.enqueue _ _ _) (.nil _))
  obtain ⟨_, hdrains⟩ := (hreach.run hwith.run).drains_drain rfl
  obtain ⟨_, hdrains'⟩ := (hreach.run hwithout.run).drains_drain rfl
  obtain ⟨v, hv, -, hlane, -⟩ := hothers 1
  exact ⟨session_together, rfl, hreach.drains_drain rfl, honce rfl, ⟨v, hv, rfl, hlane⟩, change,
    rfl, hlater ⟨1, 1⟩ rfl change _ _ _ hwith hwithout _ _ _ _ hdrains hdrains'⟩

end Workspace

end Reparse
