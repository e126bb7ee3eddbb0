import Mathlib.Logic.Relation
import Reparse.Proofs.Schedule.Lane
import Reparse.Schedule.Workspace

/-!
The steps of a workspace and of a lane, and the runs they make up. Requests are accepted, refused,
advanced and dropped by the operations of the workspace itself; beside that documents come in,
settings change, and others touch the documents. Which touches may happen is said by a rule, so a
theorem about all rules is one about every history. A run of a workspace is, for every document, a
run of its lane, and so a law of lanes is a law of workspaces.
-/

namespace Reparse

open Relation

/-- An edit of the parts of a document that is kept in memory. -/
inductive Buffers.Edit where
  | set (part : Nat) (content : ByteArray)
  | setVersion (part : Nat) (content : ByteArray) (version : Int)
  | markUnavailable (part : Nat)
  | remove (part : Nat)

def Buffers.Edit.apply (b : Buffers) : Edit → Buffers
  | set part content => (b.set part content).1
  | setVersion part content version => b.setVersion part content version
  | markUnavailable part => b.markUnavailable part
  | remove part => (b.remove part).1

/-- What others do to a document. A restocked document has any parts whatever from then on, and
whoever begins or aborts a parse on their own counts as pending beside the requests. -/
inductive Touch where
  | edit (edit : Buffers.Edit)
  | restock (store : Store)
  | rescript (script : Script)
  | begin
  | abort

def Touch.apply (d : Document) : Touch → Document
  | edit e =>
    match d.body with
    | .project (.buffers b) lifecycle =>
      { d with body := .project (.buffers (e.apply b)) lifecycle }
    | _ => d
  | restock store =>
    match d.body with
    | .project _ lifecycle => { d with body := .project store lifecycle }
    | .external .. => d
  | rescript script =>
    match d.body with
    | .project .. => d
    | .external _ refusal received => { d with body := .external script refusal received }
  | begin => d.begin
  | abort => d.abort

/-- Nothing has been done to the document yet. -/
def Document.IsNew (d : Document) : Prop :=
  match d.body with
  | .project (.buffers b) lifecycle => b = .empty ∧ lifecycle = .fresh
  | .project (.scripts _) lifecycle => lifecycle = .fresh
  | .external _ _ received => received = []

/-- Which touches of a document may happen. -/
abbrev TouchRule := Document → Touch → Prop

/-- A step of a lane. Requests are dropped only while none is under way. -/
inductive Lane.Step (parser : Parser) (rule : TouchRule) (l : Lane) : Lane → Prop where
  | touch (t : Touch) : rule l.document t → Step parser rule l (l.mapDocument t.apply)
  | accept (options : Options) : Step parser rule l (l.accept options).1
  | advance {turn l'} : l.advance parser turn = some l' → Step parser rule l l'
  | drop : (∀ r ∈ l.requests, r.stage.isUnderWay = false) → Step parser rule l l.dropQueued

abbrev Lane.Run (parser : Parser) (rule : TouchRule) : Lane → Lane → Prop :=
  ReflTransGen (Lane.Step parser rule)

/-- The lane can come about from that of a new document. -/
def Lane.Reachable (parser : Parser) (rule : TouchRule) (l : Lane) : Prop :=
  ∃ d : Document, d.IsNew ∧ Lane.Run parser rule (.ofDocument d) l

/-- What a reachable lane comes to is reachable. -/
theorem Lane.Reachable.run {parser : Parser} {rule : TouchRule} {l l' : Lane}
    (h : l.Reachable parser rule) (hrun : Lane.Run parser rule l l') :
    l'.Reachable parser rule := by
  obtain ⟨d, hnew, hinit⟩ := h
  exact ⟨d, hnew, hinit.trans hrun⟩

namespace Workspace

/-- What a request has delivered is in its lane. -/
theorem outcome?_of_get? {w : Workspace} {id : Nat} {l : Lane} (hl : w.lanes.get? id = some l)
    (turn : Nat) : w.outcome? ⟨id, turn⟩ = l.outcome? turn := by
  simp only [outcome?, hl, Option.bind_some]

/-- A step of a workspace; `rule` is given the number of the document that is touched. -/
inductive Step (parser : Parser) (rule : Nat → TouchRule) (w : Workspace) : Workspace → Prop where
  | add {d : Document} : d.IsNew → w.lanes.get? d.id = none → Step parser rule w (w.add d)
  | touch {id : Nat} {d : Document} (t : Touch) : w.document? id = some d → rule id d t →
      Step parser rule w (w.mapDocument id t.apply)
  | setSettings (settings : Settings) : Step parser rule w (w.setSettings settings)
  | setTaskComments (keywords : Keywords) : Step parser rule w (w.setTaskComments keywords)
  | setIndentation (severity : Option Severity) : Step parser rule w (w.setIndentation severity)
  | enqueue (target : Option Nat) (version : LanguageVersion) (runtime : Bool) :
      Step parser rule w (w.enqueue target version runtime).1
  | advance {ticket w'} : w.advance parser ticket = some w' → Step parser rule w w'
  | shutdown {w'} : w.shutdown = some w' → Step parser rule w w'

abbrev Run (parser : Parser) (rule : Nat → TouchRule) : Workspace → Workspace → Prop :=
  ReflTransGen (Step parser rule)

/-- The workspace can come about from one without documents, under whatever settings. -/
def Reachable (parser : Parser) (rule : Nat → TouchRule) (w : Workspace) : Prop :=
  ∃ settings, Run parser rule (.ofSettings settings) w

/-! ## Runs of requests -/

/-- A request that is advanced if it can be. -/
theorem run_advance (parser : Parser) (rule : Nat → TouchRule) (w : Workspace) (t : Ticket) :
    Run parser rule w ((w.advance parser t).getD w) := by
  cases h : w.advance parser t with
  | none => exact .refl
  | some w' => exact .single (.advance h)

theorem run_settle (parser : Parser) (rule : Nat → TouchRule) (w : Workspace) (t : Ticket) :
    Run parser rule w (w.settle parser t) := by
  unfold settle
  dsimp only
  generalize ((w.lanes.get? t.document).map Lane.stepsPerRequest).getD 0 = steps
  induction steps with
  | zero => exact .refl
  | succ n ih => exact ih.trans (run_advance parser rule _ t)

/-- A shutdown, if nothing is under way. -/
theorem run_shutdown (parser : Parser) (rule : Nat → TouchRule) (w : Workspace) :
    Run parser rule w (w.shutdown.getD w) := by
  cases h : w.shutdown with
  | none => exact .refl
  | some w' => exact .single (.shutdown h)

/-! ## What a step does to one lane -/

theorem advance_eq_some_iff {parser : Parser} {w w' : Workspace} {t : Ticket} :
    w.advance parser t = some w' ↔ ∃ l l' r, w.lanes.get? t.document = some l ∧
      l.request? t.turn = some r ∧ l.advance parser t.turn = some l' ∧
      w' = { w with
        lanes := w.lanes.insert t.document l'
        count := w.count - r.stage.isLeaving.toNat } := by
  have hleave : ∀ (l' : Lane) (r : Request),
      (if r.stage.isLeaving = true then leave { w with lanes := w.lanes.insert t.document l' }
        else { w with lanes := w.lanes.insert t.document l' }) =
      { w with
        lanes := w.lanes.insert t.document l'
        count := w.count - r.stage.isLeaving.toNat } := by
    intro l' r
    cases r.stage.isLeaving <;> rfl
  simp only [advance, Option.bind_eq_bind, Option.bind_eq_some_iff, Option.pure_def,
    Option.some.injEq, hleave]
  constructor
  · rintro ⟨l, hl, r, hr, l', hl', rfl⟩
    exact ⟨l, l', r, hl, hr, hl', rfl⟩
  · rintro ⟨l, l', r, hl, hr, hl', rfl⟩
    exact ⟨l, hl, r, hr, l', hl', rfl⟩

theorem advance_eq_some {parser : Parser} {w w' : Workspace} {t : Ticket}
    (h : w.advance parser t = some w') :
    ∃ l l' r, w.lanes.get? t.document = some l ∧ l.request? t.turn = some r ∧
      l.advance parser t.turn = some l' ∧ w'.lanes = w.lanes.insert t.document l' ∧
      w'.count = w.count - r.stage.isLeaving.toNat := by
  obtain ⟨l, l', r, hl, hr, hl', rfl⟩ := advance_eq_some_iff.1 h
  exact ⟨l, l', r, hl, hr, hl', rfl, rfl⟩

/-- A step of a request is a step of its lane. -/
theorem lane_of_advance {parser : Parser} {w w' : Workspace} {id turn : Nat} {l : Lane}
    (h : w.advance parser ⟨id, turn⟩ = some w') (hl : w.lanes.get? id = some l) :
    ∃ l', w'.lanes.get? id = some l' ∧ l.advance parser turn = some l' := by
  obtain ⟨m, l', -, hm, -, hadvance, hlanes, -⟩ := advance_eq_some h
  obtain rfl := Option.some.inj (hl.symm.trans hm)
  refine ⟨l', ?_, hadvance⟩
  rw [hlanes, NatMap.get?_insert_self]

/-- A step of a workspace is a move of the request that the ticket names, and the other lanes stay
as they are. -/
theorem moves_of_advance {parser : Parser} {w w' : Workspace} {t : Ticket}
    (h : w.advance parser t = some w') :
    ∃ l l' r, w.lanes.get? t.document = some l ∧ r.turn = t.turn ∧
      l.request? r.turn = some r ∧ l.Moves parser r l' ∧
      w'.lanes = w.lanes.insert t.document l' ∧
      w'.count = w.count - r.stage.isLeaving.toNat := by
  obtain ⟨l, l', r, hl, hr, hl', hlanes, hcount⟩ := advance_eq_some h
  obtain ⟨s, hs, hmoves⟩ := Lane.advance_moves hl'
  obtain rfl := Option.some.inj (hr.symm.trans hs)
  have hturn := Lane.turn_of_request? hr
  rw [← hturn] at hr
  exact ⟨l, l', r, hl, hturn, hr, hmoves, hlanes, hcount⟩

theorem modify_abort_modify_begin (w : Workspace) (id : Nat) :
    (w.mapDocument id .begin).mapDocument id .abort = w := by
  have hlanes : ((w.mapDocument id .begin).mapDocument id .abort).lanes = w.lanes := by
    apply NatMap.ext_of_get?
    intro k
    simp only [mapDocument, NatMap.get?_modify]
    split
    · cases w.lanes.get? k with
      | none => rfl
      | some l => simp [Lane.mapDocument]
    · rfl
  exact congrArg (fun lanes => { w with lanes }) hlanes

theorem enqueue_of_get? {w : Workspace} {id : Nat} {l : Lane} (hl : w.lanes.get? id = some l)
    (version : LanguageVersion) :
    w.enqueue (some id) version true =
      ({ w with
          lanes := w.lanes.insert id
            (l.accept (w.settings.options version l.document.uri.isSome)).1
          count := w.count + 1 }, .ok ⟨id, l.requests.length + 1⟩) := by
  simp [enqueue, hl, enter, Lane.accept]

theorem enqueue_of_get?_eq_none {w : Workspace} {id : Nat} (hl : w.lanes.get? id = none)
    (version : LanguageVersion) (runtime : Bool) :
    w.enqueue (some id) version runtime = (w, .error noDocument) := by
  simp [enqueue, hl]

/-- Where nothing runs, what has been begun and counted is taken back. -/
theorem enqueue_without_runtime {w : Workspace} {id : Nat} {l : Lane}
    (hl : w.lanes.get? id = some l) (version : LanguageVersion) :
    w.enqueue (some id) version false = (w, .error noRuntime) := by
  have hback := modify_abort_modify_begin w id
  simp only [enqueue, Option.bind_some, hl, Option.map_some, Bool.false_eq_true, if_false]
  exact Prod.ext (congrArg (fun u : Workspace => { u with count := w.count }) hback) rfl

/-- A refused request leaves everything as it was, and an accepted one joins one lane and is
counted. -/
theorem enqueue_cases (w : Workspace) (target : Option Nat) (version : LanguageVersion)
    (runtime : Bool) :
    (∃ failure, w.enqueue target version runtime = (w, .error failure)) ∨
      ∃ id l, target = some id ∧ w.lanes.get? id = some l ∧
        w.enqueue target version runtime =
          ({ w with
              lanes := w.lanes.insert id
                (l.accept (w.settings.options version l.document.uri.isSome)).1
              count := w.count + 1 }, .ok ⟨id, l.requests.length + 1⟩) := by
  cases target with
  | none => exact .inl ⟨_, rfl⟩
  | some id =>
    cases hl : w.lanes.get? id with
    | none => exact .inl ⟨_, enqueue_of_get?_eq_none hl version runtime⟩
    | some l =>
      cases runtime with
      | false => exact .inl ⟨_, enqueue_without_runtime hl version⟩
      | true => exact .inr ⟨id, l, rfl, hl, enqueue_of_get? hl version⟩

theorem isUnderWay_eq_false_iff {w : Workspace} :
    w.isUnderWay = false ↔
      ∀ id l, w.lanes.get? id = some l → ∀ r ∈ l.requests, r.stage.isUnderWay = false := by
  simp only [isUnderWay, List.any_eq_false, Bool.not_eq_true]
  constructor
  · intro h id l hl
    exact h l (List.mem_map_of_mem (f := Prod.snd) (NatMap.get?_eq_some_iff.1 hl))
  · intro h l hl
    obtain ⟨e, he, rfl⟩ := List.mem_map.1 hl
    exact h e.1 e.2 (NatMap.get?_eq_some_iff.2 he)

theorem shutdown_eq_some {w w' : Workspace} (h : w.shutdown = some w') :
    (∀ id l, w.lanes.get? id = some l → ∀ r ∈ l.requests, r.stage.isUnderWay = false) ∧
      w'.lanes = w.lanes.mapValues fun _ l => l.dropQueued := by
  unfold shutdown at h
  split at h
  · cases h
  · rename_i hidle
    obtain rfl := Option.some.inj h
    exact ⟨isUnderWay_eq_false_iff.1 (Bool.not_eq_true _ ▸ hidle), rfl⟩

/-- A step of a workspace adds a lane, leaves it alone, or is a step of it. -/
theorem Step.lane_cases {parser : Parser} {rule : Nat → TouchRule} {w w' : Workspace}
    (h : Step parser rule w w') (id : Nat) :
    (w.lanes.get? id = none ∧ ∃ d : Document, d.IsNew ∧ d.id = id ∧
        w'.lanes.get? id = some (.ofDocument d)) ∨
      w'.lanes.get? id = w.lanes.get? id ∨
      ∃ l l', w.lanes.get? id = some l ∧ w'.lanes.get? id = some l' ∧
        Lane.Step parser (rule id) l l' := by
  cases h with
  | @add d hnew hfree =>
    simp only [Workspace.add, NatMap.get?_insert]
    split
    · rename_i heq
      subst heq
      exact .inl ⟨hfree, d, hnew, rfl, rfl⟩
    · exact .inr (.inl rfl)
  | @touch other d t hd hrule =>
    simp only [mapDocument, NatMap.get?_modify]
    split
    · rename_i heq
      subst heq
      obtain ⟨l, hl, rfl⟩ := Option.map_eq_some_iff.1 hd
      exact .inr (.inr ⟨l, _, hl, by rw [hl]; rfl, .touch t hrule⟩)
    · exact .inr (.inl rfl)
  | setSettings settings => exact .inr (.inl rfl)
  | setTaskComments keywords => exact .inr (.inl rfl)
  | setIndentation severity => exact .inr (.inl rfl)
  | enqueue target version runtime =>
    rcases w.enqueue_cases target version runtime with ⟨_, heq⟩ | ⟨other, l, -, hl, heq⟩
    · rw [heq]
      exact .inr (.inl rfl)
    · rw [heq, NatMap.get?_insert]
      split
      · rename_i heq
        subst heq
        exact .inr (.inr ⟨l, _, hl, rfl, .accept _⟩)
      · exact .inr (.inl rfl)
  | @advance ticket w' hadvance =>
    obtain ⟨l, l', r, hl, -, hl', hlanes, -⟩ := advance_eq_some hadvance
    rw [hlanes, NatMap.get?_insert]
    split
    · rename_i heq
      subst heq
      exact .inr (.inr ⟨l, l', hl, rfl, .advance hl'⟩)
    · exact .inr (.inl rfl)
  | shutdown hshutdown =>
    obtain ⟨hidle, hlanes⟩ := shutdown_eq_some hshutdown
    rw [hlanes, NatMap.get?_mapValues]
    cases hl : w.lanes.get? id with
    | none => exact .inr (.inl rfl)
    | some l => exact .inr (.inr ⟨l, _, rfl, rfl, .drop (hidle id l hl)⟩)

/-- A run of a workspace is a run of each of its lanes. -/
theorem Run.lane {parser : Parser} {rule : Nat → TouchRule} {w w' : Workspace}
    (h : Run parser rule w w') {id : Nat} {l : Lane} (hl : w.lanes.get? id = some l) :
    ∃ l', w'.lanes.get? id = some l' ∧ Lane.Run parser (rule id) l l' := by
  induction h with
  | refl => exact ⟨l, hl, .refl⟩
  | tail _ step ih =>
    obtain ⟨l', hl', hrun⟩ := ih
    rcases step.lane_cases id with ⟨hnone, -⟩ | hsame | ⟨a, b, ha, hb, hstep⟩
    · rw [hl'] at hnone
      cases hnone
    · exact ⟨l', hsame.trans hl', hrun⟩
    · obtain rfl := Option.some.inj (hl'.symm.trans ha)
      exact ⟨b, hb, hrun.tail hstep⟩

theorem Reachable.run {parser : Parser} {rule : Nat → TouchRule} {w w' : Workspace}
    (h : Reachable parser rule w) (hrun : Run parser rule w w') : Reachable parser rule w' := by
  obtain ⟨settings, hstart⟩ := h
  exact ⟨settings, hstart.trans hrun⟩

/-- The lanes of a reachable workspace are reachable on their own. -/
theorem Reachable.lane {parser : Parser} {rule : Nat → TouchRule} {w : Workspace}
    (h : Reachable parser rule w) {id : Nat} {l : Lane} (hl : w.lanes.get? id = some l) :
    l.Reachable parser (rule id) := by
  obtain ⟨settings, hrun⟩ := h
  induction hrun generalizing l with
  | refl =>
    rw [ofSettings, NatMap.get?_empty] at hl
    cases hl
  | tail _ step ih =>
    rcases step.lane_cases id with ⟨-, d, hnew, -, hd⟩ | hsame | ⟨a, b, ha, hb, hstep⟩
    · obtain rfl := Option.some.inj (hl.symm.trans hd)
      exact ⟨d, hnew, .refl⟩
    · exact ih (hsame.symm.trans hl)
    · obtain rfl := Option.some.inj (hl.symm.trans hb)
      obtain ⟨d, hnew, hlane⟩ := ih ha
      exact ⟨d, hnew, hlane.tail hstep⟩

end Workspace

end Reparse
