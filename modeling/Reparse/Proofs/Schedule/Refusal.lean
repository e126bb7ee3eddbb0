import Reparse.Proofs.Schedule.Independence
import Reparse.Proofs.Schedule.Installed

/-!
Refused requests. A request for a parse is refused where there is no document to parse and where
nothing runs that could take the request. By then the document may already count it as pending, and
the workspace as in flight; both are taken back, and nobody can tell afterwards that it was made.
-/

namespace Reparse

/-- What happens in a session, and the answer to it if it is a request for a parse: its ticket, or
why it is refused. -/
structure Event.Entry where
  event : Event
  answer? : Option (Except Failure Ticket)

/-- A request is refused. -/
def Event.Entry.isRefusal (e : Event.Entry) : Bool :=
  match e.answer? with
  | some (.error _) => true
  | _ => false

namespace Workspace

variable {parser : Parser} {rule : Nat → TouchRule} {v w w' : Workspace}

/-- The answer to an event that is a request for a parse. -/
def answer? (w : Workspace) : Event → Option (Except Failure Ticket)
  | .enqueue target version runtime => some (w.enqueue target version runtime).2
  | _ => none

/-- The events happen one after the other, and are answered like this. -/
inductive Recorded (parser : Parser) (rule : Nat → TouchRule) :
    Workspace → List Event.Entry → Workspace → Prop where
  | nil (w : Workspace) : Recorded parser rule w [] w
  | cons {w v w' : Workspace} {e : Event} {entries : List Event.Entry} :
      Happens parser rule w e v → Recorded parser rule v entries w' →
      Recorded parser rule w (⟨e, w.answer? e⟩ :: entries) w'

/-- Every session has its answers, so what is so of all that is recorded is so of all sessions. -/
theorem session_iff_exists_recorded {events : List Event} :
    Session parser rule w events w' ↔
      ∃ entries, entries.map Event.Entry.event = events ∧ Recorded parser rule w entries w' := by
  constructor
  · intro h
    induction h with
    | nil w => exact ⟨[], rfl, .nil w⟩
    | cons he _ ih =>
      obtain ⟨entries, rfl, hentries⟩ := ih
      exact ⟨_ :: entries, rfl, .cons he hentries⟩
  · rintro ⟨entries, rfl, h⟩
    induction h with
    | nil w => exact .nil w
    | cons he _ ih => exact .cons he ih

/-! ## One request -/

theorem enqueue_of_document?_eq_none {target : Option Nat} (h : target.bind w.document? = none)
    (version : LanguageVersion) (runtime : Bool) :
    w.enqueue target version runtime = (w, .error noDocument) := by
  cases target with
  | none => rfl
  | some id => exact enqueue_of_get?_eq_none (Option.map_eq_none_iff.1 h) version runtime

/-- Without a runtime a request is refused in every state of the document: what it adds to the
parses that are pending, its own refusal takes away again. -/
theorem enqueue_of_document?_isSome {target : Option Nat}
    (h : (target.bind w.document?).isSome = true) (version : LanguageVersion) :
    w.enqueue target version false = (w, .error noRuntime) := by
  obtain ⟨d, hd⟩ := Option.isSome_iff_exists.1 h
  obtain ⟨id, rfl, hd⟩ := Option.bind_eq_some_iff.1 hd
  obtain ⟨l, hl, -⟩ := Option.map_eq_some_iff.1 hd
  exact enqueue_without_runtime hl version

/-- Where a request is refused, and why. -/
theorem enqueue_refused {target : Option Nat} {runtime : Bool}
    (h : target.bind w.document? = none ∨ runtime = false) (version : LanguageVersion) :
    w.enqueue target version runtime =
      (w, .error (if target.bind w.document? = none then noDocument else noRuntime)) := by
  split
  · rename_i hnone
    exact enqueue_of_document?_eq_none hnone version runtime
  · rename_i hsome
    rw [h.resolve_left hsome]
    exact enqueue_of_document?_isSome (Option.isSome_iff_ne_none.2 hsome) version

theorem exists_enqueue_eq_error_iff (w : Workspace) (target : Option Nat)
    (version : LanguageVersion) (runtime : Bool) :
    (∃ failure, (w.enqueue target version runtime).2 = .error failure) ↔
      target.bind w.document? = none ∨ runtime = false := by
  constructor
  · rintro ⟨failure, hfailure⟩
    cases hdocument : target.bind w.document? with
    | none => exact .inl rfl
    | some d =>
      obtain ⟨id, rfl, hd⟩ := Option.bind_eq_some_iff.1 hdocument
      obtain ⟨l, hl, -⟩ := Option.map_eq_some_iff.1 hd
      cases runtime with
      | false => exact .inr rfl
      | true =>
        rw [enqueue_of_get? hl] at hfailure
        cases hfailure
  · exact fun hrefused => ⟨_, congrArg Prod.snd (enqueue_refused hrefused version)⟩

/-- A refused request leaves the workspace as it is. -/
theorem fst_enqueue_of_error {target : Option Nat} {version : LanguageVersion} {runtime : Bool}
    {failure : Failure} (h : (w.enqueue target version runtime).2 = .error failure) :
    (w.enqueue target version runtime).1 = w := by
  rcases w.enqueue_cases target version runtime with ⟨_, heq⟩ | ⟨id, l, -, -, heq⟩
  · rw [heq]
  · rw [heq] at h
    cases h

/-! ## A whole session -/

/-- A refused request is the only event that is answered with a failure. -/
theorem Happens.eq_of_isRefusal {e : Event} (h : Happens parser rule w e v)
    (hrefusal : Event.Entry.isRefusal ⟨e, w.answer? e⟩ = true) : v = w := by
  cases h with
  | enqueue target version runtime =>
    cases hanswer : (w.enqueue target version runtime).2 with
    | error failure => exact fst_enqueue_of_error hanswer
    | ok ticket => simp [Event.Entry.isRefusal, answer?, hanswer] at hrefusal
  | _ => cases hrefusal

/-- The refused requests can be taken out of a session. -/
theorem Recorded.filter {entries : List Event.Entry} (h : Recorded parser rule v entries w) :
    Recorded parser rule v (entries.filter fun e => !e.isRefusal) w := by
  induction h with
  | nil w => exact .nil w
  | @cons w u w' e entries he _ ih =>
    rw [List.filter_cons]
    split
    · exact .cons he ih
    · rename_i hrefusal
      rw [Bool.not_eq_true, Bool.not_eq_false'] at hrefusal
      rwa [← he.eq_of_isRefusal hrefusal]

theorem recorded_cons_iff {e : Event} {answer : Option (Except Failure Ticket)}
    {entries : List Event.Entry} :
    Recorded parser rule w (⟨e, answer⟩ :: entries) w' ↔
      answer = w.answer? e ∧
        ∃ v, Happens parser rule w e v ∧ Recorded parser rule v entries w' := by
  constructor
  · intro h
    cases h with
    | cons he hrest => exact ⟨rfl, _, he, hrest⟩
  · rintro ⟨rfl, v, he, hrest⟩
    exact .cons he hrest

/-- What can happen after a refused request could have happened without it. -/
theorem recorded_cons_refused_iff {target : Option Nat} {version : LanguageVersion} {runtime : Bool}
    {failure : Failure} (hfailure : (w.enqueue target version runtime).2 = .error failure)
    {later : List Event.Entry} :
    Recorded parser rule w
        (⟨.enqueue target version runtime, some (.error failure)⟩ :: later) w' ↔
      Recorded parser rule w later w' := by
  have hsame := fst_enqueue_of_error hfailure
  rw [recorded_cons_iff, answer?, hfailure]
  constructor
  · rintro ⟨-, u, he, hrest⟩
    cases he with
    | enqueue => rwa [hsame] at hrest
  · intro hrest
    refine ⟨rfl, _, .enqueue target version runtime, ?_⟩
    rwa [hsame]

/-- Refused requests go unnoticed. If they are taken out of a session, it goes on as it did: the
other requests are answered as before, and in the end the workspace is the same, with its count, its
settings, its documents, what is pending and what is installed in them, the chains of their
requests, all results, and all readings and calls of the parser. In whatever state a session has
left the workspace, a request is refused exactly where there is no such document or nothing runs.
The refusal says which of these it was; nothing has changed by then, and what can happen afterwards,
with which answers, is what could have happened anyway. -/
theorem refused_requests_unnoticed {entries : List Event.Entry}
    (h : Recorded parser rule v entries w) :
    Recorded parser rule v (entries.filter fun e => !e.isRefusal) w ∧
    ∀ target version runtime,
      ((∃ failure, (w.enqueue target version runtime).2 = .error failure) ↔
        target.bind w.document? = none ∨ runtime = false) ∧
      ∀ failure, (w.enqueue target version runtime).2 = .error failure →
        failure = (if target.bind w.document? = none then noDocument else noRuntime) ∧
        (w.enqueue target version runtime).1 = w ∧
        ∀ later w', Recorded parser rule w
            (⟨.enqueue target version runtime, some (.error failure)⟩ :: later) w' ↔
          Recorded parser rule w later w' := by
  refine ⟨h.filter, ?_⟩
  intro target version runtime
  have hwhere := w.exists_enqueue_eq_error_iff target version runtime
  refine ⟨hwhere, ?_⟩
  intro failure hfailure
  have hrefused := enqueue_refused (hwhere.1 ⟨failure, hfailure⟩) version
  refine ⟨?_, fst_enqueue_of_error hfailure, fun _ _ => recorded_cons_refused_iff hfailure⟩
  rw [hrefused] at hfailure
  exact (Except.error.inj hfailure).symm

/-- While a request is under way, somebody begins a parse on their own and aborts one too many.
Three requests are refused meanwhile, and then one is accepted. -/
def refusals : List Event.Entry :=
  [⟨.touch 1 .begin, none⟩, ⟨.enqueue (some 1) .standard false, some (.error noRuntime)⟩,
    ⟨.touch 1 .abort, none⟩, ⟨.touch 1 .abort, none⟩,
    ⟨.enqueue (some 1) .standard false, some (.error noRuntime)⟩,
    ⟨.enqueue none .standard true, some (.error noDocument)⟩,
    ⟨.enqueue (some 1) .standard true, some (.ok ⟨1, 3⟩)⟩]

/-- The workspace then. -/
def pressed : Workspace :=
  let w := interrupted.mapDocument 1 (Touch.apply · .begin)
  let w := w.mapDocument 1 (Touch.apply · .abort)
  let w := w.mapDocument 1 (Touch.apply · .abort)
  (w.enqueue (some 1) .standard true).1

theorem recorded_refusals : Recorded .plain (fun _ _ _ => True) interrupted refusals pressed := by
  refine .cons (.touch .begin rfl trivial) ((recorded_cons_refused_iff rfl).2 ?_)
  refine .cons (.touch .abort rfl trivial) (.cons (.touch .abort rfl trivial) ?_)
  refine (recorded_cons_refused_iff rfl).2 ((recorded_cons_refused_iff rfl).2 ?_)
  exact recorded_cons_iff.2 ⟨rfl, _, .enqueue _ _ _, .nil _⟩

theorem refusals_unnoticed :
    Reachable .plain (fun _ _ _ => True) interrupted ∧ interrupted.count = 1 ∧
      (interrupted.installed? 1).isSome = true ∧
      Recorded .plain (fun _ _ _ => True) interrupted refusals pressed ∧
      Recorded .plain (fun _ _ _ => True) interrupted
        [⟨.touch 1 .begin, none⟩, ⟨.touch 1 .abort, none⟩, ⟨.touch 1 .abort, none⟩,
          ⟨.enqueue (some 1) .standard true, some (.ok ⟨1, 3⟩)⟩] pressed ∧
      pressed.count = 2 ∧ (pressed.enqueue (some 1) .standard false).1 = pressed := by
  obtain ⟨hwithout, hnext⟩ := refused_requests_unnoticed recorded_refusals
  obtain ⟨hwhere, hrefused⟩ := hnext (some 1) .standard false
  obtain ⟨failure, hfailure⟩ := hwhere.2 (.inr rfl)
  exact ⟨reachable_interrupted, rfl, rfl, recorded_refusals, hwithout, rfl,
    (hrefused failure hfailure).2.1⟩

end Workspace

end Reparse
