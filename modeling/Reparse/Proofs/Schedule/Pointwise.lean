import Reparse.Proofs.Schedule.Progress
import Reparse.Proofs.Schedule.Provenance
import Reparse.Proofs.Schedule.Verdicts

/-!
A request for a document of the project ends with what its readings come to, part by part. The
reading of a part is settled by itself: by what the installed receipt has of the part, and else by
the parser. So a request that finds nothing newer than what is installed calls no parser and gives
the records that there are.
-/

namespace Reparse

open Relation

namespace Document

/-- What failures say of a document. -/
def label (d : Document) : String × Option String :=
  (d.name, d.path)

theorem label_read (d : Document) (part : Nat) : (d.read part).2.label = d.label := by
  obtain ⟨id, uri, path, body⟩ := d
  cases body <;> rfl

theorem label_mapLifecycle (d : Document) (f : Lifecycle → Lifecycle) :
    (d.mapLifecycle f).label = d.label := by
  obtain ⟨id, uri, path, body⟩ := d
  cases body <;> rfl

theorem label_touch (d : Document) (t : Touch) : (t.apply d).label = d.label := by
  cases t with
  | begin => exact d.label_mapLifecycle _
  | abort => exact d.label_mapLifecycle _
  | edit e => unfold Touch.apply; dsimp only; split <;> rfl
  | restock s => unfold Touch.apply; dsimp only; split <;> rfl
  | rescript s => unfold Touch.apply; dsimp only; split <;> rfl

end Document

namespace Lane

variable {parser : Parser} {rule : TouchRule} {l₀ l l' : Lane} {r s : Request}

/-! ## What has not been read -/

/-- Requests that have not started have read nothing. -/
def Unread (l : Lane) : Prop :=
  ∀ turn, (∀ r, l.request? turn = some r → r.stage = .queued) → ∀ part,
    l.reading? turn part = none

theorem unread_ofDocument (d : Document) : (ofDocument d).Unread :=
  fun _ _ _ => rfl

theorem Unread.step (h : l.Unread) (hchain : l.Chained) (hstep : Lane.Step parser rule l l') :
    l'.Unread := by
  intro turn hqueued part
  cases hstep with
  | touch t _ => exact h turn hqueued part
  | accept options =>
    exact h turn (fun r hr => hqueued r (request?_accept_of_some hr options)) part
  | advance hadvance =>
    obtain ⟨s, hs, hmoves⟩ := advance_moves hadvance
    obtain rfl := turn_of_request? hs
    obtain ⟨stage, hnext, -, hself, hother⟩ := hmoves.request? hs
    have hne : turn ≠ s.turn := by
      rintro rfl
      obtain rfl : stage = .queued := hqueued _ hself
      exact absurd hnext.not_isQueued (by simp [Stage.isQueued])
    rw [(hmoves.reading? turn part).resolve_right fun hnew => hne hnew.1]
    exact h turn (fun r hr => hqueued r ((hother turn hne).trans hr)) part
  | drop _ =>
    rw [reading?_dropQueued]
    refine h turn ?_ part
    intro r hr
    have hr' := hqueued _ ((hchain.numbered.request?_dropQueued turn).trans (by rw [hr]; rfl))
    dsimp only at hr'
    split at hr'
    · cases hr'
    · exact hr'

theorem Unread.run (h : l.Unread) (hchain : l.Chained) (hrun : Lane.Run parser rule l l') :
    l'.Unread := by
  induction hrun with
  | refl => exact h
  | tail hinit hstep ih => exact ih.step (hchain.run hinit) hstep

/-- What a request has read in a run, the document said at some moment of the run. -/
theorem exists_read_of_reading? (hrun : Lane.Run parser rule l l') {turn part : Nat}
    (hunread : l.reading? turn part = none) {reading : Reading}
    (hreading : l'.reading? turn part = some reading) :
    ∃ m, Lane.Run parser rule l m ∧ Lane.Run parser rule m l' ∧
      reading = (m.document.read part).1 := by
  induction hrun with
  | refl =>
    rw [hunread] at hreading
    cases hreading
  | @tail m l' hinit hstep ih =>
    rcases reading?_step hstep turn part with hold | hnew
    · obtain ⟨k, hk, hk', heq⟩ := ih (hold.symm.trans hreading)
      exact ⟨k, hk, hk'.tail hstep, heq⟩
    · exact ⟨m, hinit, .single hstep, Option.some.inj (hreading.symm.trans hnew)⟩

/-! ## One step of the request, and steps of others -/

theorem advance_of_running {turn : Nat} (hr : l.request? turn = some r) {job : Job}
    (hstage : r.stage = .running job) : l.advance parser turn = some (l.work parser r job) := by
  unfold advance
  rw [hr]
  dsimp only
  rw [hstage]

theorem firstJob_of_isProject (h : l.document.isProject = true) :
    l.firstJob = .project l.document.parts.reverse l.receipt? .empty := by
  unfold Document.isProject at h
  unfold firstJob receipt? Document.installed? Document.lifecycle? Document.parts
  cases hbody : l.document.body with
  | project store lifecycle => rfl
  | external script refusal received =>
    rw [hbody] at h
    cases h

/-- Content is parsed where there is no record that can be used again. -/
theorem recordOf_cases (parser : Parser) (l₀ : Lane) (hoptions : s.options = r.options)
    (hturn : s.turn = r.turn) (part : Nat) (content : ByteArray) (version : Int) :
    (∃ record, recordOf parser s l₀.receipt? part content version =
        (.ok record, l₀.callsFor part (some (.content content version))) ∧
      l₀.verdict parser r part (.content content version) = .ok (some record)) ∨
    ∃ panic, recordOf parser s l₀.receipt? part content version =
        (.error panic, l₀.callsFor part (some (.content content version))) ∧
      l₀.verdict parser r part (.content content version) = .error (l₀.brokenOff panic) := by
  simp only [recordOf, callsFor, verdict, reusable?_receipt?, hoptions, hturn]
  cases l₀.reused? part version with
  | some old => exact .inl ⟨old, rfl, rfl⟩
  | none =>
    cases parser content r.options with
    | ok parsed => exact .inl ⟨_, rfl, rfl⟩
    | error panic => exact .inr ⟨panic, rfl, rfl⟩

/-- A part is read, and what the reading comes to decides how the request goes on. -/
theorem readPart_eq (hlabel : l.document.label = l₀.document.label)
    (hoptions : s.options = r.options) (hturn : s.turn = r.turn) (part : Nat) (todo : List Nat)
    (records : NatMap Record) :
    l.readPart parser s part todo l₀.receipt? records =
      let reading := (l.document.read part).1
      let l₁ := { (l.read r.turn part).2 with
        parses := l.parses + l₀.callsFor part (some reading) }
      match l₀.verdict parser r part reading with
      | .ok record? =>
        l₁.setStage r.turn
          (.running (.project todo l₀.receipt? (record?.elim records (records.insert part))))
      | .error failure => l₁.fail r.turn failure := by
  have hbroken : ∀ panic, l₀.brokenOff panic = (l.read r.turn part).2.brokenOff panic := by
    intro panic
    have hname : (l.read r.turn part).2.document.name = l₀.document.name :=
      congrArg Prod.fst ((l.document.label_read part).trans hlabel)
    unfold brokenOff
    rw [hname]
  have hread : l.read s.turn part = ((l.document.read part).1, (l.read r.turn part).2) := by
    rw [hturn]
    rfl
  unfold readPart
  rw [hread, hturn]
  dsimp only
  cases (l.document.read part).1 with
  | unavailable => rfl
  | failed error => rfl
  | panicked text =>
    simp only [verdict, hbroken]
    rfl
  | content content version =>
    rcases l₀.recordOf_cases parser hoptions hturn part content version with
      ⟨record, hrecord, hverdict⟩ | ⟨panic, hrecord, hverdict⟩
    · simp only [hrecord, hverdict]
      rfl
    · simp only [hrecord, hverdict, hbroken]
      rfl

/-- All parts have been read, and the records decide how the request ends. -/
theorem conclude_eq (hlabel : l.document.label = l₀.document.label) (hturn : s.turn = r.turn)
    (records : NatMap Record) :
    records.values = [] ∧ l.conclude s records = l.fail r.turn l₀.nothingToRead ∨
      records.values ≠ [] ∧ ∃ outline,
        l.conclude s records = (l.mapDocument
            (·.install outline ⟨.project records, r.turn⟩)).setStage r.turn
          (.concluded (.ok ⟨.project records, r.turn⟩)) := by
  have hnothing : l.nothingToRead = l₀.nothingToRead :=
    congrArg (fun label : String × Option String => Failure.notFound label.1 label.2) hlabel
  unfold conclude
  rw [hturn, hnothing]
  dsimp only
  cases houtline : Receipt.outline? ⟨.project records, r.turn⟩ with
  | none => exact .inl ⟨Receipt.outline?_eq_none_iff.1 houtline, rfl⟩
  | some outline =>
    refine .inr ⟨?_, outline, rfl⟩
    intro hempty
    have hnone : Receipt.outline? ⟨.project records, r.turn⟩ = none :=
      Receipt.outline?_eq_none_iff.2 hempty
    rw [hnone] at houtline
    cases houtline

/-- While a request that has started has not signalled, others can at most take their last steps;
and after that, those in front can do no more. -/
theorem Chained.moves_of_other (h : l.Chained) (hr : l.request? r.turn = some r)
    (hstarted : r.stage ≠ .queued) (hs : l.request? s.turn = some s) (hne : s.turn ≠ r.turn)
    (hmoves : l.Moves parser s l') :
    l' = l.setStage s.turn .finished ∨ r.turn < s.turn ∧ r.stage.hasSignalled = true := by
  have hfinish : s.stage.hasSignalled = true → l' = l.setStage s.turn .finished := by
    intro hsignalled
    cases hmoves with
    | finish _ => rfl
    | _ => simp_all [Stage.hasSignalled]
  rcases Nat.lt_or_gt_of_ne hne with hlt | hgt
  · left
    refine hfinish ((h.order s.turn r.turn s r hlt hs hr).resolve_left ?_)
    exact fun hqueued => hstarted (Stage.isQueued_iff.1 hqueued)
  · right
    refine ⟨hgt, ?_⟩
    rcases h.order r.turn s.turn r s hgt hr hs with hqueued | hsignalled
    · obtain ⟨-, -, hreleased, -, -⟩ := hmoves.stage
      exact h.signalled_of_released hgt hr hs (hreleased (Stage.isQueued_iff.1 hqueued))
    · exact hsignalled

theorem reading?_read (l : Lane) (turn part : Nat) :
    (l.read turn part).2.reading? turn =
      Function.update (l.reading? turn) part (some (l.document.read part).1) := by
  funext p
  rw [(l.reads_read turn part).reading?, Function.update_apply]
  simp

/-! ## From the start of a request on -/

/-- Where a request stands that has started in `l₀`: halfway through the parts, or at the end that
its readings come to. The parser has been called for it as often as its readings need, and what it
has installed stays at least until a later request starts. -/
structure Pursues (parser : Parser) (l₀ : Lane) (r : Request) (l : Lane) : Prop where
  started : ∃ stage, l.request? r.turn = some { r with stage } ∧ stage ≠ .queued
  project : l.document.isProject = true
  unlisted : ∀ part ∉ l₀.document.parts, l.reading? r.turn part = none
  running : ∀ s job, l.request? r.turn = some s → s.stage = .running job →
    l.document.label = l₀.document.label ∧ ∃ todo records,
      job = .project todo l₀.receipt? records ∧
        l₀.Halfway parser r (l.reading? r.turn) todo records
  ended : ∀ outcome, l.result? r.turn = some outcome →
    l₀.Ended parser r (l.reading? r.turn) outcome
  parses : ∀ s, l.request? r.turn = some s → s.stage.hasSignalled = false →
    l.parses = l₀.parses + l₀.calls (l.reading? r.turn)
  installed : ∀ receipt, l.result? r.turn = some (.ok receipt) →
    (∀ t s, r.turn < t → l.request? t = some s → s.stage = .queued) → l.receipt? = some receipt

/-- The request moves on to another stage. -/
theorem Pursues.of_moves (h : l₀.Pursues parser r l) (hchain : l.Chained) {stage next : Stage}
    (hr : l.request? r.turn = some { r with stage }) (hmoves : l.Moves parser { r with stage } l')
    (hself : l'.request? r.turn = some { r with stage := next }) (hnext : next ≠ .queued)
    (hunlisted : ∀ part ∉ l₀.document.parts, l'.reading? r.turn part = none)
    (hrunning : ∀ job, next = .running job → l'.document.label = l₀.document.label ∧
      ∃ todo records, job = .project todo l₀.receipt? records ∧
        l₀.Halfway parser r (l'.reading? r.turn) todo records)
    (hended : ∀ outcome, next.outcome?.or (l.result? r.turn) = some outcome →
      l₀.Ended parser r (l'.reading? r.turn) outcome)
    (hparses : next.hasSignalled = false →
      l'.parses = l₀.parses + l₀.calls (l'.reading? r.turn))
    (hinstalled : ∀ receipt, next.outcome?.or (l.result? r.turn) = some (.ok receipt) →
      (∀ t s, r.turn < t → l.request? t = some s → s.stage = .queued) →
        l'.receipt? = some receipt) : l₀.Pursues parser r l' := by
  obtain ⟨_, -, hproject, -⟩ := hmoves.document hr
  obtain ⟨-, -, -, -, hother⟩ := hmoves.request? hr
  have hresult := hmoves.result? hchain hr hself r.turn
  rw [if_pos rfl] at hresult
  refine ⟨⟨next, hself, hnext⟩, hproject.trans h.project, hunlisted, ?_, ?_, ?_, ?_⟩
  · intro s job hs hstage
    obtain rfl := Option.some.inj (hself.symm.trans hs)
    exact hrunning job hstage
  · intro outcome hres
    exact hended outcome (hresult.symm.trans hres)
  · intro s hs
    obtain rfl := Option.some.inj (hself.symm.trans hs)
    exact hparses
  · intro receipt hres hbehind
    refine hinstalled receipt (hresult.symm.trans hres) ?_
    intro t s hlt hs
    exact hbehind t s hlt ((hother t (Nat.ne_of_gt hlt)).trans hs)

/-- The request reads a part. -/
theorem Pursues.readPart (h : l₀.Pursues parser r l) (hchain : l.Chained) {stage : Stage}
    {part : Nat} {todo : List Nat} {records : NatMap Record}
    (hr : l.request? r.turn = some { r with stage })
    (hstage : stage = .running (.project (part :: todo) l₀.receipt? records))
    (hlabel : l.document.label = l₀.document.label)
    (hhalfway : l₀.Halfway parser r (l.reading? r.turn) (part :: todo) records)
    (hmoves : l.Moves parser { r with stage } l')
    (hwork : l' = l.readPart parser { r with stage } part todo l₀.receipt? records) :
    l₀.Pursues parser r l' := by
  have hread := l.reading?_read r.turn part
  have hnone := hchain.result?_of_running (r := { r with stage }) hr hstage
  have hparses : l.parses + l₀.callsFor part (some (l.document.read part).1) =
      l₀.parses + l₀.calls ((l.read r.turn part).2.reading? r.turn) := by
    rw [hread, hhalfway.calls_next, h.parses _ hr (by rw [hstage]; rfl), Nat.add_assoc]
  have hunlisted : ∀ p ∉ l₀.document.parts, (l.read r.turn part).2.reading? r.turn p = none := by
    intro p hp
    have hne : p ≠ part := by
      rintro rfl
      exact hp hhalfway.lt_iff.1
    rw [hread, Function.update_of_ne hne]
    exact h.unlisted p hp
  rw [readPart_eq (s := { r with stage }) (r := r) hlabel rfl rfl] at hwork
  cases hverdict : l₀.verdict parser r part (l.document.read part).1 with
  | ok record? =>
    simp only [hverdict] at hwork
    subst hwork
    refine h.of_moves hchain hr hmoves (request?_setStage_self hr _) nofun hunlisted ?_ ?_
      (fun _ => hparses) ?_
    · intro job hjob
      cases hjob
      refine ⟨(l.document.label_read part).trans hlabel, _, _, rfl, ?_⟩
      have hnext := hhalfway.next hverdict
      rw [← hread] at hnext
      exact hnext
    · intro outcome hout
      cases hout.symm.trans hnone
    · intro receipt hout
      cases hout.symm.trans hnone
  | error failure =>
    simp only [hverdict] at hwork
    subst hwork
    refine h.of_moves hchain hr hmoves
      (request?_setStage_self hr (.concluded (.error failure))) nofun hunlisted nofun ?_
      (fun _ => hparses) ?_
    · intro outcome hout
      obtain rfl := Option.some.inj hout
      have hend := hhalfway.ended_of_failure hverdict
      rw [← hread] at hend
      exact hend
    · intro receipt hout
      cases Option.some.inj hout

/-- The request has read all parts. -/
theorem Pursues.conclude (h : l₀.Pursues parser r l) (hchain : l.Chained) {stage : Stage}
    {records : NatMap Record} (hr : l.request? r.turn = some { r with stage })
    (hstage : stage = .running (.project [] l₀.receipt? records))
    (hlabel : l.document.label = l₀.document.label)
    (hhalfway : l₀.Halfway parser r (l.reading? r.turn) [] records)
    (hmoves : l.Moves parser { r with stage } l')
    (hwork : l' = l.conclude { r with stage } records) : l₀.Pursues parser r l' := by
  have hparses := h.parses _ hr (by rw [hstage]; rfl)
  rcases conclude_eq (s := { r with stage }) hlabel rfl records with
    ⟨hempty, heq⟩ | ⟨hsome, outline, heq⟩
  · obtain rfl := hwork.trans heq
    refine h.of_moves hchain hr hmoves
      (request?_setStage_self hr (.concluded (.error l₀.nothingToRead))) nofun h.unlisted nofun ?_
      (fun _ => hparses) ?_
    · intro outcome hout
      obtain rfl := Option.some.inj hout
      exact hhalfway.ended_of_empty hempty
    · intro receipt hout
      cases Option.some.inj hout
  · obtain rfl := hwork.trans heq
    refine h.of_moves hchain hr hmoves (request?_setStage_self hr _) nofun h.unlisted nofun ?_
      (fun _ => hparses) ?_
    · intro outcome hout
      obtain rfl := Option.some.inj hout
      exact hhalfway.ended_of_records hsome
    · intro receipt hout _
      cases Option.some.inj hout
      exact congrArg (Option.map Installed.receipt)
        (Document.installed?_install h.project outline _)

/-- The request takes a step. -/
theorem Pursues.moves_self (h : l₀.Pursues parser r l) (hchain : l.Chained)
    (hadvance : l.advance parser r.turn = some l') : l₀.Pursues parser r l' := by
  obtain ⟨stage, hr, hstarted⟩ := h.started
  obtain ⟨s, hs, hmoves⟩ := advance_moves hadvance
  obtain rfl := Option.some.inj (hr.symm.trans hs)
  cases hstage : stage with
  | queued => exact absurd hstage hstarted
  | running job =>
    have hwork := Option.some.inj (hadvance.symm.trans (advance_of_running hr hstage))
    obtain ⟨hlabel, todo, records, rfl, hhalfway⟩ := h.running _ job hr hstage
    cases todo with
    | nil => exact h.conclude hchain hr hstage hlabel hhalfway hmoves hwork
    | cons part todo => exact h.readPart hchain hr hstage hlabel hhalfway hmoves hwork
  | concluded outcome =>
    subst hstage
    simp only [advance, hr, Option.some.injEq] at hadvance
    subst hadvance
    exact h.of_moves hchain hr hmoves (request?_setStage_self hr _) nofun h.unlisted nofun
      h.ended (fun _ => h.parses _ hr rfl) h.installed
  | delivered =>
    subst hstage
    simp only [advance, hr, Option.some.injEq] at hadvance
    subst hadvance
    exact h.of_moves hchain hr hmoves (request?_setStage_self hr _) nofun h.unlisted nofun
      h.ended nofun h.installed
  | signalled =>
    subst hstage
    simp only [advance, hr, Option.some.injEq] at hadvance
    subst hadvance
    exact h.of_moves hchain hr hmoves (request?_setStage_self hr _) nofun h.unlisted nofun
      h.ended nofun h.installed
  | finished =>
    subst hstage
    simp [advance, hr] at hadvance

/-- Another request takes a step. -/
theorem Pursues.moves_other (h : l₀.Pursues parser r l) (hchain : l.Chained)
    (hs : l.request? s.turn = some s) (hne : s.turn ≠ r.turn) (hmoves : l.Moves parser s l') :
    l₀.Pursues parser r l' := by
  obtain ⟨stage, hr, hstarted⟩ := h.started
  obtain ⟨next, hnext, -, hself, hother⟩ := hmoves.request? hs
  have hr' : l'.request? r.turn = some { r with stage } := (hother r.turn hne.symm).trans hr
  have hresult : l'.result? r.turn = l.result? r.turn := by
    rw [hmoves.result? hchain hs hself r.turn, if_neg hne.symm]
  have hreadings : l'.reading? r.turn = l.reading? r.turn := by
    funext p
    exact (hmoves.reading? r.turn p).resolve_right fun hnew => hne hnew.1.symm
  obtain ⟨_, -, hproject, -⟩ := hmoves.document hs
  have hmoved : next ≠ .queued := by
    rintro rfl
    exact absurd hnext.not_isQueued (by simp [Stage.isQueued])
  have hended : ∀ outcome, l'.result? r.turn = some outcome →
      l₀.Ended parser r (l'.reading? r.turn) outcome := by
    rw [hresult, hreadings]
    exact h.ended
  have hunlisted : ∀ part ∉ l₀.document.parts, l'.reading? r.turn part = none := by
    rw [hreadings]
    exact h.unlisted
  rcases hchain.moves_of_other (r := { r with stage }) hr hstarted hs hne hmoves with
    rfl | ⟨hlt, hsignalled⟩
  · refine ⟨⟨stage, hr', hstarted⟩, h.project, hunlisted, ?_, hended, ?_, ?_⟩
    · intro q job hq hstage
      rw [hreadings]
      exact h.running q job (hr.trans (hr'.symm.trans hq)) hstage
    · intro q hq
      rw [hreadings]
      exact h.parses q (hr.trans (hr'.symm.trans hq))
    · intro receipt hres hbehind
      refine h.installed receipt (hresult.symm.trans hres) ?_
      intro t q hlt hq
      by_cases heq : t = s.turn
      · subst heq
        exact absurd (hbehind s.turn _ hlt hself) hmoved
      · exact hbehind t q hlt ((hother t heq).trans hq)
  · refine ⟨⟨stage, hr', hstarted⟩, hproject.trans h.project, hunlisted, ?_, hended, ?_, ?_⟩
    · intro q job hq hstage
      obtain rfl := Option.some.inj (hr'.symm.trans hq)
      dsimp only at hstage
      rw [hstage] at hsignalled
      cases hsignalled
    · intro q hq hnot
      obtain rfl := Option.some.inj (hr'.symm.trans hq)
      rw [hsignalled] at hnot
      cases hnot
    · intro receipt hres hbehind
      exact absurd (hbehind s.turn _ hlt hself) hmoved

theorem Pursues.touch (h : l₀.Pursues parser r l) (t : Touch) :
    l₀.Pursues parser r (l.mapDocument t.apply) := by
  refine ⟨h.started, (l.document.isProject_touch t).trans h.project, h.unlisted, ?_, h.ended,
    h.parses, ?_⟩
  · intro s job hs hstage
    obtain ⟨hlabel, hhalfway⟩ := h.running s job hs hstage
    exact ⟨(l.document.label_touch t).trans hlabel, hhalfway⟩
  · intro receipt hres hbehind
    exact (congrArg _ (l.document.installed?_touch t)).trans (h.installed receipt hres hbehind)

theorem Pursues.accept (h : l₀.Pursues parser r l) (options : Options) :
    l₀.Pursues parser r (l.accept options).1 := by
  obtain ⟨stage, hr, hstarted⟩ := h.started
  have hr' := request?_accept_of_some hr options
  refine ⟨⟨stage, hr', hstarted⟩, (l.document.isProject_mapLifecycle _).trans h.project,
    h.unlisted, ?_, ?_, ?_, ?_⟩
  · intro s job hs hstage
    obtain ⟨hlabel, hhalfway⟩ := h.running s job (hr.trans (hr'.symm.trans hs)) hstage
    exact ⟨(l.document.label_mapLifecycle _).trans hlabel, hhalfway⟩
  · intro outcome hres
    rw [result?_accept] at hres
    exact h.ended outcome hres
  · intro s hs
    exact h.parses s (hr.trans (hr'.symm.trans hs))
  · intro receipt hres hbehind
    rw [result?_accept] at hres
    refine (congrArg _ l.document.installed?_begin).trans (h.installed receipt hres ?_)
    intro t s hlt hs
    exact hbehind t s hlt (request?_accept_of_some hs options)

/-- Requests are dropped only while none is under way, and so the request has finished by then. -/
theorem Pursues.drop (h : l₀.Pursues parser r l) (hchain : l.Chained)
    (hidle : ∀ s ∈ l.requests, s.stage.isUnderWay = false) : l₀.Pursues parser r l.dropQueued := by
  obtain ⟨stage, hr, hstarted⟩ := h.started
  have hfinished : stage = .finished := by
    have hunder := hidle _ (mem_of_request? hr)
    cases stage with
    | queued => exact absurd rfl hstarted
    | finished => rfl
    | _ => cases hunder
  subst hfinished
  have hr' : l.dropQueued.request? r.turn = some { r with stage := .finished } := by
    rw [hchain.numbered.request?_dropQueued, hr]
    rfl
  obtain ⟨outcome, hbox⟩ := Option.isSome_iff_exists.1 (hchain.delivered r.turn _ hr).symm
  have hresult := hchain.result?_eq_some_iff.2 (.inl hbox)
  have hdrop : Lane.Step parser (fun _ _ => False) l l.dropQueued := .drop hidle
  have hresult' := hchain.result?_step hdrop hresult
  have hreadings : l.dropQueued.reading? r.turn = l.reading? r.turn :=
    funext fun p => l.reading?_dropQueued r.turn p
  refine ⟨⟨_, hr', nofun⟩, ?_, hreadings ▸ h.unlisted, ?_, ?_, ?_, ?_⟩
  · unfold dropQueued
    rw [document_foldl_drop, Document.isProject_mapLifecycle]
    exact h.project
  · intro s job hs hstage
    obtain rfl := Option.some.inj (hr'.symm.trans hs)
    cases hstage
  · intro other hres
    obtain rfl := Option.some.inj (hresult'.symm.trans hres)
    rw [hreadings]
    exact h.ended _ hresult
  · intro s hs hnot
    obtain rfl := Option.some.inj (hr'.symm.trans hs)
    cases hnot
  · intro receipt hres hbehind
    obtain rfl := Option.some.inj (hresult'.symm.trans hres)
    refine (congrArg _ l.installed?_dropQueued).trans (h.installed receipt hresult ?_)
    intro t s hlt hs
    have hs' := hchain.numbered.request?_dropQueued t
    rw [hs, Option.map_some] at hs'
    have hqueued := hbehind t _ hlt hs'
    split at hqueued
    · cases hqueued
    · exact hqueued

/-- A step of the lane. -/
theorem Pursues.step (h : l₀.Pursues parser r l) (hchain : l.Chained)
    (hstep : Lane.Step parser rule l l') : l₀.Pursues parser r l' := by
  cases hstep with
  | touch t _ => exact h.touch t
  | accept options => exact h.accept options
  | @advance turn l' hadvance =>
    obtain ⟨s, hs, hmoves⟩ := advance_moves hadvance
    obtain rfl := turn_of_request? hs
    by_cases heq : s.turn = r.turn
    · rw [heq] at hadvance
      exact h.moves_self hchain hadvance
    · exact h.moves_other hchain hs heq hmoves
  | drop hidle => exact h.drop hchain hidle

theorem Pursues.run (h : l₀.Pursues parser r l) (hchain : l.Chained)
    (hrun : Lane.Run parser rule l l') : l₀.Pursues parser r l' := by
  induction hrun with
  | refl => exact h
  | tail hinit hstep ih => exact ih.step (hchain.run hinit) hstep

/-- A request starts. -/
theorem pursues_of_start (hchain : l₀.Chained) (hunread : l₀.Unread)
    (hproject : l₀.document.isProject = true) (hr : l₀.request? r.turn = some r)
    (hqueued : r.stage = .queued) (hadvance : l₀.advance parser r.turn = some l) :
    l₀.Pursues parser r l := by
  obtain ⟨s, hs, hmoves⟩ := advance_moves hadvance
  obtain rfl := Option.some.inj (hr.symm.trans hs)
  obtain rfl := hmoves.eq_of_queued hqueued
  have hself := request?_setStage_self hr (.running l₀.firstJob)
  have hnone := (hchain.moves hr hmoves).result?_of_running
    (r := { r with stage := .running l₀.firstJob }) hself rfl
  have hreadings : ∀ p, l₀.reading? r.turn p = none := by
    apply hunread r.turn
    intro s hs
    obtain rfl := Option.some.inj (hr.symm.trans hs)
    exact hqueued
  refine ⟨⟨_, hself, nofun⟩, hproject, fun part _ => hreadings part, ?_, ?_, ?_, ?_⟩
  · intro s job hs hstage
    obtain rfl := Option.some.inj (hself.symm.trans hs)
    cases hstage
    exact ⟨rfl, _, _, firstJob_of_isProject hproject, halfway_start hreadings⟩
  · intro outcome hres
    cases hres.symm.trans hnone
  · intro s _ _
    have hzero : l₀.calls (l₀.reading? r.turn) = 0 := by
      rw [calls, total_eq_zero]
      intro n hn
      obtain ⟨p, -, rfl⟩ := List.mem_map.1 hn
      rw [hreadings]
      rfl
    show l₀.parses = l₀.parses + l₀.calls (l₀.reading? r.turn)
    rw [hzero]
    rfl
  · intro receipt hres
    cases hres.symm.trans hnone

/-! ## A request that is left to itself -/

/-- So many steps of one request, as far as it can take them. -/
def pursue (parser : Parser) (turn : Nat) : Nat → Lane → Lane
  | 0, l => l
  | n + 1, l => pursue parser turn n ((l.advance parser turn).getD l)

theorem run_pursue (parser : Parser) (rule : TouchRule) (turn n : Nat) (l : Lane) :
    Lane.Run parser rule l (l.pursue parser turn n) := by
  induction n generalizing l with
  | zero => exact .refl
  | succ n ih =>
    rw [pursue]
    cases hadvance : l.advance parser turn with
    | none => exact ih l
    | some l' => exact .head (.advance hadvance) (ih l')

theorem isSome_advance_of_started {turn : Nat} (hr : l.request? turn = some r)
    (hstarted : r.stage ≠ .queued) (hunfinished : r.stage ≠ .finished) :
    (l.advance parser turn).isSome = true := by
  unfold advance
  rw [hr]
  dsimp only
  cases hstage : r.stage with
  | queued => exact absurd hstage hstarted
  | finished => exact absurd hstage hunfinished
  | _ => rfl

/-- A request that has started comes to its end by itself. -/
theorem Chained.isSome_outcome?_pursue (h : l.Chained) {stage : Stage}
    (hr : l.request? r.turn = some { r with stage }) (hstarted : stage ≠ .queued) {n : Nat}
    (hle : stage.stepsLeft l.document.parts.length ≤ n) :
    ((l.pursue parser r.turn n).outcome? r.turn).isSome = true := by
  induction n generalizing l stage with
  | zero =>
    obtain rfl := Stage.stepsLeft_eq_zero_iff.1 (Nat.le_zero.1 hle)
    exact (h.delivered r.turn _ hr).symm
  | succ n ih =>
    rw [pursue]
    by_cases hfinished : stage = .finished
    · subst hfinished
      have hnone : l.advance parser r.turn = none := by simp [advance, hr]
      rw [hnone]
      exact ih h hr hstarted (Nat.zero_le n)
    · have hcan : (l.advance parser r.turn).isSome = true :=
        isSome_advance_of_started hr hstarted hfinished
      obtain ⟨l', hadvance⟩ := Option.isSome_iff_exists.1 hcan
      obtain ⟨s, hs, hmoves⟩ := advance_moves hadvance
      obtain rfl := Option.some.inj (hr.symm.trans hs)
      obtain ⟨next, hnext, -, hself, -⟩ := hmoves.request? hr
      have hmoved : next ≠ .queued := by
        rintro rfl
        exact absurd hnext.not_isQueued (by simp [Stage.isQueued])
      have hlt := hmoves.stepsLeft_lt_stage hr hself
      rw [hadvance, Option.getD_some]
      refine ih (h.moves hr hmoves) hself hmoved ?_
      rw [hmoves.parts]
      dsimp only at hlt
      omega

/-- So many steps are enough as are provided for a request that has not started. -/
theorem Pursues.stepsLeft_le (h : l₀.Pursues parser r l) {stage : Stage}
    (hr : l.request? r.turn = some { r with stage }) (hstarted : stage ≠ .queued) (parts : Nat) :
    stage.stepsLeft parts ≤ l₀.stepsPerRequest := by
  unfold stepsPerRequest
  cases stage with
  | queued => exact absurd rfl hstarted
  | running job =>
    obtain ⟨-, todo, records, rfl, hhalfway⟩ := h.running _ job hr rfl
    have hle := hhalfway.suffix.length_le
    rw [List.length_reverse] at hle
    simp only [Stage.stepsLeft]
    omega
  | _ =>
    simp only [Stage.stepsLeft]
    omega

/-! ## Versions -/

/-- The record of a part with a known version is as new as the part and as the record before it. -/
theorem Ended.version_eq {readings : Nat → Option Reading} {receipt : Receipt}
    (h : l₀.Ended parser r readings (.ok receipt)) {part : Nat} (hpart : part ∈ l₀.document.parts)
    {content : ByteArray} {version : Int}
    (hreading : readings part = some (.content content version)) (hknown : 0 ≤ version) :
    (receipt.get? part).map Record.version =
        some ((l₀.recorded? part).elim version (max version ·.version)) ∧
      receipt.isStale part version = false := by
  cases h with
  | @receipt records hrecords _ _ =>
    obtain ⟨reading, hread, hverdict⟩ := hrecords part hpart
    obtain rfl := Option.some.inj (hreading.symm.trans hread)
    obtain ⟨record, hrecord, hle, hversion⟩ := version_of_verdict hverdict hknown
    have hget : Receipt.get? ⟨.project records, r.turn⟩ part = some record := hrecord
    refine ⟨by rw [hget, Option.map_some, hversion], ?_⟩
    rw [Receipt.isStale, Receipt.reusable?_eq_some_iff.2 ⟨hknown, hget, hle⟩]
    rfl

/-! ## Repeating a request -/

/-- Where the parts say what they said when the installed receipt was made, and their versions are
known, each of them comes to the record that the receipt has of it, and no parser is called. -/
theorem Ended.verdict_of_repeated {l₂ : Lane} {r' : Request} {readings : Nat → Option Reading}
    {receipt : Receipt} (h : l₀.Ended parser r readings (.ok receipt))
    (hreceipt : l₂.receipt? = some receipt) {part : Nat} (hpart : part ∈ l₀.document.parts)
    {reading : Reading} (hreading : readings part = some reading)
    (hknown : ∀ content version, reading = .content content version → 0 ≤ version) :
    l₂.verdict parser r' part reading = .ok (receipt.get? part) ∧
      l₂.callsFor part (some reading) = 0 := by
  cases h with
  | @receipt records hrecords _ _ =>
    obtain ⟨reading', hread, hverdict⟩ := hrecords part hpart
    obtain rfl := Option.some.inj (hreading.symm.trans hread)
    cases reading with
    | unavailable => exact ⟨hverdict, rfl⟩
    | failed error => cases hverdict
    | panicked text => cases hverdict
    | content content version =>
      have hnonneg := hknown content version rfl
      obtain ⟨record, hrecord, hle, -⟩ := version_of_verdict hverdict hnonneg
      have hrecorded : l₂.recorded? part = some record := by
        unfold recorded?
        rw [hreceipt]
        exact hrecord
      have hreused : l₂.reused? part version = some record :=
        reused?_eq_some_iff.2 ⟨hrecorded, hnonneg, hle⟩
      have hget : Receipt.get? ⟨.project records, r.turn⟩ part = some record := hrecord
      rw [hget]
      simp [verdict, callsFor, hreused]

/-- A request for which the parts say the same again calls no parser and gives the same records. -/
theorem Ended.of_repeated {l₂ : Lane} {r' : Request} {readings readings' : Nat → Option Reading}
    {receipt : Receipt} (h : l₀.Ended parser r readings (.ok receipt))
    (hreceipt : l₂.receipt? = some receipt) (hparts : l₂.document.parts = l₀.document.parts)
    (hsame : ∀ part reading, readings' part = some reading → readings part = some reading)
    (hknown : ∀ part content version, readings part = some (.content content version) →
      0 ≤ version) :
    l₂.calls readings' = 0 ∧ ∀ outcome, l₂.Ended parser r' readings' outcome →
      ∃ receipt', outcome = .ok receipt' ∧ receipt'.records = receipt.records := by
  have hverdict : ∀ part ∈ l₀.document.parts, ∀ reading, readings part = some reading →
      l₂.verdict parser r' part reading = .ok (receipt.get? part) ∧
        l₂.callsFor part (some reading) = 0 := by
    intro part hpart reading hreading
    refine h.verdict_of_repeated hreceipt hpart hreading ?_
    rintro content version rfl
    exact hknown part content version hreading
  constructor
  · refine total_eq_zero ?_
    intro n hn
    obtain ⟨part, hpart, rfl⟩ := List.mem_map.1 hn
    rw [List.mem_reverse, hparts] at hpart
    cases hreading : readings' part with
    | none => rfl
    | some reading => exact (hverdict part hpart reading (hsame part reading hreading)).2
  · intro outcome hended
    cases h with
    | @receipt records hrecords houtside hsome =>
      have hagain : l₂.Ended parser r' readings (.ok ⟨.project records, r'.turn⟩) := by
        refine .receipt ?_ (hparts ▸ houtside) hsome
        intro part hpart
        rw [hparts] at hpart
        obtain ⟨reading, hread, -⟩ := hrecords part hpart
        exact ⟨reading, hread, (hverdict part hpart reading hread).1⟩
      have hagree : ReadAlike readings readings' := by
        intro part reading reading' hread hread'
        exact Option.some.inj ((hsame part reading' hread').symm.trans hread)
      exact ⟨_, hagain.unique hended hagree, rfl⟩

/-! ## The law -/

/-- The request is queued in one lane, and starts with the step to the other one. -/
structure Starts (parser : Parser) (l : Lane) (r : Request) (l' : Lane) : Prop where
  request : r ∈ l.requests
  queued : r.stage = .queued
  advance : l.advance parser r.turn = some l'

/-- What comes before a start may begin with any document, and so with anything installed. -/
theorem Starts.pursues {d : Document} (h : Starts parser l₀ r l)
    (hinit : Lane.Run parser rule (.ofDocument d) l₀) (hproject : l₀.document.isProject = true) :
    l₀.Chained ∧ l.Chained ∧ l₀.Pursues parser r l ∧ ∀ part, l.reading? r.turn part = none := by
  have hchain₀ := (chained_ofDocument d).run hinit
  have hunread₀ := (unread_ofDocument d).run (chained_ofDocument d) hinit
  have hr := hchain₀.numbered.request?_eq h.request
  obtain ⟨s, hs, hmoves⟩ := advance_moves h.advance
  obtain rfl := Option.some.inj (hr.symm.trans hs)
  refine ⟨hchain₀, hchain₀.moves hr hmoves,
    pursues_of_start hchain₀ hunread₀ hproject hr h.queued h.advance, ?_⟩
  intro part
  rw [hmoves.eq_of_queued h.queued]
  refine hunread₀ r.turn ?_ part
  intro q hq
  obtain rfl := Option.some.inj (hr.symm.trans hq)
  exact h.queued

/-- Until the next request starts, nothing is installed after the receipt of a success. -/
theorem Pursues.receipt?_of_starts (h : l₀.Pursues parser r l) (hchain : l.Chained)
    {receipt : Receipt} (hres : l.result? r.turn = some (.ok receipt))
    (hstart : Starts parser l s l') (hturn : s.turn = r.turn + 1) : l.receipt? = some receipt := by
  refine h.installed receipt hres ?_
  intro t q hlt hq
  have hs := hchain.numbered.request?_eq hstart.request
  rcases Nat.eq_or_lt_of_le (Nat.succ_le_of_lt hlt) with heq | hgt
  · obtain rfl : t = s.turn := heq.symm.trans hturn.symm
    obtain rfl := Option.some.inj (hs.symm.trans hq)
    exact hstart.queued
  · rcases hchain.order s.turn t s q (hturn ▸ hgt) hs hq with hqueued | hsignalled
    · exact Stage.isQueued_iff.1 hqueued
    · rw [hstart.queued] at hsignalled
      cases hsignalled

/-- A request for a document of the project, whatever has been installed before and whatever
happens meanwhile, comes to an end by itself in a number of steps known in advance. Its end is the
one that `Ended` gives for its readings, each of which is what the document said at some moment,
and requests with the same readings would have the same end. If it succeeds, the record of a part
with a known version has the greater of that version and the one installed before, and the part is
not stale. A request right behind it, for which the listed parts say the same again and all their
versions are known, calls no parser until it signals and gives the same records. -/
theorem request_pointwise {d : Document} {l₁ : Lane}
    (hinit : Lane.Run parser rule (.ofDocument d) l₀) (hproject : l₀.document.isProject = true)
    (hstart : Starts parser l₀ r l₁) (hrun : Lane.Run parser rule l₁ l) :
    ((l.pursue parser r.turn l₀.stepsPerRequest).outcome? r.turn).isSome = true ∧
    (∀ part ∉ l₀.document.parts, l.reading? r.turn part = none) ∧
    (∀ part reading, l.reading? r.turn part = some reading → ∃ m, Lane.Run parser rule l₁ m ∧
      Lane.Run parser rule m l ∧ reading = (m.document.read part).1) ∧
    (∀ outcome, l.outcome? r.turn = some outcome →
      l₀.Ended parser r (l.reading? r.turn) outcome ∧
      ∀ readings outcome', ReadAlike (l.reading? r.turn) readings →
        l₀.Ended parser r readings outcome' → outcome' = outcome) ∧
    ∀ receipt, l.outcome? r.turn = some (.ok receipt) →
      (∀ part content version, l.reading? r.turn part = some (.content content version) →
        0 ≤ version → (receipt.get? part).map Record.version =
            some ((l₀.recorded? part).elim version (max version ·.version)) ∧
          receipt.isStale part version = false) ∧
      ∀ l₂ l₃ l₄ r', Lane.Run parser rule l l₂ → Starts parser l₂ r' l₃ →
        Lane.Run parser rule l₃ l₄ → r'.turn = r.turn + 1 →
        l₂.document.parts = l₀.document.parts →
        (∀ part reading, l₄.reading? r'.turn part = some reading →
          l.reading? r.turn part = some reading) →
        (∀ part content version, l.reading? r.turn part = some (.content content version) →
          0 ≤ version) →
        (∀ outcome, l₄.outcome? r'.turn = some outcome →
          ∃ receipt', outcome = .ok receipt' ∧ receipt'.records = receipt.records) ∧
        ∀ s, l₄.request? r'.turn = some s → s.stage.hasSignalled = false →
          l₄.parses = l₂.parses := by
  obtain ⟨hchain₀, hchain₁, hpursues₁, hunread₁⟩ := hstart.pursues hinit hproject
  have hchain := hchain₁.run hrun
  have hpursues := hpursues₁.run hchain₁ hrun
  have hresult : ∀ {outcome}, l.outcome? r.turn = some outcome →
      l.result? r.turn = some outcome :=
    fun hout => hchain.result?_eq_some_iff.2 (.inl hout)
  refine ⟨?_, hpursues.unlisted,
    fun part reading => exists_read_of_reading? hrun (hunread₁ part), ?_, ?_⟩
  · obtain ⟨stage, hr, hstarted⟩ := hpursues.started
    exact hchain.isSome_outcome?_pursue hr hstarted (hpursues.stepsLeft_le hr hstarted _)
  · intro outcome hout
    have hended := hpursues.ended outcome (hresult hout)
    exact ⟨hended, fun readings outcome' hagree hended' => hended.unique hended' hagree⟩
  · intro receipt hout
    have hended := hpursues.ended _ (hresult hout)
    constructor
    · intro part content version hreading hknown
      refine hended.version_eq ?_ hreading hknown
      apply Classical.byContradiction
      intro hunlisted
      cases hreading.symm.trans (hpursues.unlisted part hunlisted)
    · intro l₂ l₃ l₄ r' hrun₂ hstart' hrun₄ hturn hparts hsame hknown
      have hchain₂ := hchain.run hrun₂
      have hpursues₂ := hpursues.run hchain hrun₂
      have hinit₂ : Lane.Run parser rule (.ofDocument d) l₂ :=
        (hinit.tail (.advance hstart.advance)).trans (hrun.trans hrun₂)
      obtain ⟨-, hchain₃, hpursues₃, -⟩ := hstart'.pursues hinit₂ hpursues₂.project
      have hpursues₄ := hpursues₃.run hchain₃ hrun₄
      have hinstalled : l₂.receipt? = some receipt :=
        hpursues₂.receipt?_of_starts hchain₂ (hchain.result?_run hrun₂ (hresult hout)) hstart' hturn
      obtain ⟨hcalls, hsameEnd⟩ := hended.of_repeated hinstalled hparts hsame hknown
      constructor
      · intro outcome hout'
        refine hsameEnd outcome (hpursues₄.ended outcome ?_)
        exact (hchain₃.run hrun₄).result?_eq_some_iff.2 (.inl hout')
      · intro s hs hunsignalled
        rw [hpursues₄.parses s hs hunsignalled, hcalls, Nat.add_zero]

/-- The record of an earlier parse, which is newer than the part. -/
def keptRecord : Record := ⟨5, .single [], [], 0⟩

/-- A part without a record, one without content, and one with a newer record. -/
def recorded : Document where
  id := 1
  uri := none
  path := none
  body :=
    .project
      (.buffers
        ((Buffers.empty.setVersion 0 "x = 1".toUTF8 2).setVersion 1 "".toUTF8 1
          |>.markUnavailable 1 |>.setVersion 2 "y = 2".toUTF8 3))
      ⟨some ⟨.single [], ⟨.project (NatMap.empty.insert 2 keptRecord), 0⟩⟩, 0⟩

/-- A request is about to start. -/
def recordedQueued : Lane := ((ofDocument recorded).accept .standard).1

def recordedStarted : Lane := (recordedQueued.advance .plain 1).getD recordedQueued

def recordedEnded : Lane := recordedStarted.pursue .plain 1 7

/-- The request is repeated. -/
def repeatedQueued : Lane := (recordedEnded.accept .standard).1

def repeatedStarted : Lane := (repeatedQueued.advance .plain 2).getD repeatedQueued

def repeatedDelivered : Lane := repeatedStarted.pursue .plain 2 5

theorem recorded_pointwise :
    Lane.Run .plain (fun _ _ => False) (.ofDocument recorded) recordedQueued ∧
      ∃ r r' receipt receipt', Starts .plain recordedQueued r recordedStarted ∧
        Starts .plain repeatedQueued r' repeatedStarted ∧
        recordedEnded.outcome? 1 = some (.ok receipt) ∧ receipt.records.keys = [0, 2] ∧
        receipt.get? 2 = some keptRecord ∧ (receipt.get? 0).map Record.version = some 2 ∧
        receipt.isStale 0 2 = false ∧
        repeatedDelivered.outcome? 2 = some (.ok receipt') ∧ receipt'.records = receipt.records ∧
        recordedEnded.parses = 1 ∧ repeatedDelivered.parses = repeatedQueued.parses := by
  have hinit : Lane.Run .plain (fun _ _ => False) (.ofDocument recorded) recordedQueued :=
    .single (.accept .standard)
  have hstart : Starts .plain recordedQueued ⟨1, .standard, none, .queued⟩ recordedStarted :=
    ⟨.head _, rfl, rfl⟩
  have hstart' : Starts .plain repeatedQueued ⟨2, .standard, some 1, .queued⟩ repeatedStarted :=
    ⟨.tail _ (.head _), rfl, rfl⟩
  have hrun := run_pursue .plain (fun _ _ => False) 1 7 recordedStarted
  have hrun₂ : Lane.Run .plain (fun _ _ => False) recordedEnded repeatedQueued :=
    .single (.accept .standard)
  have hrun₄ := run_pursue .plain (fun _ _ => False) 2 5 repeatedStarted
  obtain ⟨-, hunlisted, -, -, hsuccess⟩ := request_pointwise hinit rfl hstart hrun
  obtain ⟨hversions, hrepeat⟩ := hsuccess _ rfl
  have hunlisted' := (request_pointwise (((hinit.tail (.advance hstart.advance)).trans hrun).trans
    hrun₂) rfl hstart' hrun₄).2.1
  have hlisted : ∀ part ∈ [0, 1, 2], part = 0 ∨ part = 1 ∨ part = 2 := by decide
  obtain ⟨hversion, hstale⟩ := hversions 0 _ 2 rfl (by decide)
  have hsame : ∀ part reading, repeatedDelivered.reading? 2 part = some reading →
      recordedEnded.reading? 1 part = some reading := by
    intro part reading hreading
    by_cases hpart : part ∈ [0, 1, 2]
    · rcases hlisted part hpart with rfl | rfl | rfl <;> exact hreading
    · cases hreading.symm.trans (hunlisted' part hpart)
  have hknown : ∀ part content version,
      recordedEnded.reading? 1 part = some (.content content version) → 0 ≤ version := by
    intro part content version hreading
    by_cases hpart : part ∈ [0, 1, 2]
    · rcases hlisted part hpart with rfl | rfl | rfl <;> cases hreading <;> decide
    · cases hreading.symm.trans (hunlisted part hpart)
  obtain ⟨hagain, hcalls⟩ := hrepeat _ _ _ _ hrun₂ hstart' hrun₄ rfl rfl hsame hknown
  obtain ⟨receipt', hreceipt', hrecords⟩ := hagain _ rfl
  exact ⟨hinit, _, _, _, receipt', hstart, hstart', rfl, rfl, rfl, hversion, hstale,
    congrArg some hreceipt', hrecords, rfl, hcalls _ rfl rfl⟩

end Lane

end Reparse
