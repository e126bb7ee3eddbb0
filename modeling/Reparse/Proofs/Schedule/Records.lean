import Reparse.Proofs.Schedule.Installed

/-!
Where records are kept. A record comes into being by a parse of content that has just been read,
and from then on it is gathered, installed and used again. So a property that every new record has
is one of all records that a lane carries.
-/

namespace Reparse

open Relation

namespace Lane

variable {parser : Parser} {P : Nat → Record → Prop} {l l' : Lane} {r : Request}

/-- All records that are installed, at hand for being used again, or gathered have a property. -/
structure Carries (l : Lane) (P : Nat → Record → Prop) : Prop where
  installed : ∀ i, l.document.installed? = some i →
    ∀ part record, i.receipt.get? part = some record → P part record
  reusable : ∀ t r todo last records, l.request? t = some r →
    r.stage = .running (.project todo last records) → ∀ receipt, last = some receipt →
    ∀ part record, receipt.get? part = some record → P part record
  gathered : ∀ t r todo last records, l.request? t = some r →
    r.stage = .running (.project todo last records) →
    ∀ part record, records.get? part = some record → P part record

theorem Carries.imp {Q : Nat → Record → Prop} (h : l.Carries P)
    (hQ : ∀ part record, P part record → Q part record) : l.Carries Q where
  installed := fun i hi part record hrecord => hQ part record (h.installed i hi part record hrecord)
  reusable := fun t r todo last records hr hstage receipt hreceipt part record hrecord =>
    hQ part record (h.reusable t r todo last records hr hstage receipt hreceipt part record hrecord)
  gathered := fun t r todo last records hr hstage part record hrecord =>
    hQ part record (h.gathered t r todo last records hr hstage part record hrecord)

theorem carries_ofDocument {d : Document} (hnew : d.IsNew) : (ofDocument d).Carries P := by
  refine ⟨?_, ?_, ?_⟩
  · intro i hi
    rw [show (ofDocument d).document.installed? = none from hnew.installed?_eq_none] at hi
    cases hi
  · intro t r todo last records hr
    rw [request?_ofDocument] at hr
    cases hr
  · intro t r todo last records hr
    rw [request?_ofDocument] at hr
    cases hr

theorem Carries.touch (h : l.Carries P) (t : Touch) : (l.mapDocument t.apply).Carries P where
  installed := by
    intro i hi
    exact h.installed i ((l.document.installed?_touch t).symm.trans hi)
  reusable := h.reusable
  gathered := h.gathered

/-- A lane in which nobody is at work who was not, and nothing is installed that was not. -/
theorem Carries.of_fewer (h : l.Carries P)
    (hinstalled : l'.document.installed? = l.document.installed?)
    (hrunning : ∀ t r job, l'.request? t = some r → r.stage = .running job →
      l.request? t = some r) : l'.Carries P where
  installed := fun i hi => h.installed i (hinstalled.symm.trans hi)
  reusable := fun t r todo last records hr hstage =>
    h.reusable t r todo last records (hrunning t r _ hr hstage) hstage
  gathered := fun t r todo last records hr hstage =>
    h.gathered t r todo last records (hrunning t r _ hr hstage) hstage

theorem Carries.accept (h : l.Carries P) (options : Options) :
    (l.accept options).1.Carries P := by
  refine h.of_fewer l.document.installed?_begin ?_
  intro t r job hr hstage
  rcases of_request?_accept hr with hold | ⟨-, rfl⟩
  · exact hold
  · cases hstage

theorem Carries.drop (h : l.Carries P) (hchain : l.Chained) : l.dropQueued.Carries P := by
  refine h.of_fewer l.installed?_dropQueued ?_
  intro t r job hr hstage
  rw [hchain.numbered.request?_dropQueued] at hr
  obtain ⟨s, hs, rfl⟩ := Option.map_eq_some_iff.1 hr
  split at hstage
  · cases hstage
  · rename_i hkept
    rw [if_neg hkept]
    exact hs

/-- A request starts with the installed receipt at hand and with no records of its own. -/
theorem firstJob_eq_project {todo : List Nat} {last : Option Receipt} {records : NatMap Record}
    (h : l.firstJob = .project todo last records) :
    last = l.document.installed?.map Installed.receipt ∧ records = .empty := by
  unfold firstJob at h
  unfold Document.installed? Document.lifecycle?
  cases hbody : l.document.body with
  | project store lifecycle =>
    rw [hbody] at h
    cases h
    exact ⟨rfl, rfl⟩
  | external script refusal received =>
    rw [hbody] at h
    cases h

/-- A record is one from before, or what the parser has given for the content. -/
theorem recordOf_eq_ok {last : Option Receipt} {part : Nat} {content : ByteArray} {version : Int}
    {record : Record}
    (h : (recordOf parser r last part content version).1 = .ok record) :
    (∃ receipt, last = some receipt ∧ receipt.reusable? part version = some record) ∨
      ∃ parsed, parser content r.options = .ok parsed ∧
        record = ⟨version, parsed.outline, parsed.diagnostics, r.turn⟩ := by
  unfold recordOf at h
  split at h
  · rename_i found hfound
    obtain rfl := Except.ok.inj h
    exact .inl (Option.bind_eq_some_iff.1 hfound)
  · split at h
    · rename_i parsed hparsed
      obtain rfl := Except.ok.inj h
      exact .inr ⟨parsed, hparsed, rfl⟩
    · cases h

/-! ## Moves -/

/-- Reading a part leaves the requests and what is installed. -/
theorem Carries.keeps (h : l.Carries P) (hkeeps : l.Keeps l') : l'.Carries P :=
  h.of_fewer hkeeps.installed? fun t _ _ hr _ => hkeeps.request? t ▸ hr

/-- When a request moves on, only its new stage can have come by records. -/
theorem Carries.setStage (h : l.Carries P) (hr : l.request? r.turn = some r) {stage : Stage}
    (hjob : ∀ todo last records, stage = .running (.project todo last records) →
      (∀ receipt, last = some receipt →
        ∀ part record, receipt.get? part = some record → P part record) ∧
      ∀ part record, records.get? part = some record → P part record) :
    (l.setStage r.turn stage).Carries P where
  installed := h.installed
  reusable := by
    intro t s todo last records hs hstage
    by_cases ht : t = r.turn
    · subst ht
      rw [request?_setStage_self hr] at hs
      obtain rfl := Option.some.inj hs
      exact (hjob todo last records hstage).1
    · rw [request?_setStage_of_ne ht] at hs
      exact h.reusable t s todo last records hs hstage
  gathered := by
    intro t s todo last records hs hstage
    by_cases ht : t = r.turn
    · subst ht
      rw [request?_setStage_self hr] at hs
      obtain rfl := Option.some.inj hs
      exact (hjob todo last records hstage).2
    · rw [request?_setStage_of_ne ht] at hs
      exact h.gathered t s todo last records hs hstage

theorem Carries.start (h : l.Carries P) (hr : l.request? r.turn = some r) :
    (l.setStage r.turn (.running l.firstJob)).Carries P := by
  refine h.setStage hr ?_
  intro todo last records hjob
  obtain ⟨rfl, rfl⟩ := firstJob_eq_project (Stage.running.inj hjob)
  refine ⟨?_, nofun⟩
  intro receipt hreceipt
  obtain ⟨i, hi, rfl⟩ := Option.map_eq_some_iff.1 hreceipt
  exact h.installed i hi

theorem Carries.skip (h : l.Carries P) (hr : l.request? r.turn = some r) {part : Nat}
    {todo : List Nat} {last : Option Receipt} {records : NatMap Record}
    (hstage : r.stage = .running (.project (part :: todo) last records)) :
    (l.setStage r.turn (.running (.project todo last records))).Carries P := by
  refine h.setStage hr ?_
  intro todo' last' records' hjob
  cases hjob
  exact ⟨h.reusable _ r _ _ _ hr hstage, h.gathered _ r _ _ _ hr hstage⟩

theorem Carries.gather (h : l.Carries P) (hr : l.request? r.turn = some r) {part : Nat}
    {todo : List Nat} {last : Option Receipt} {records : NatMap Record}
    (hstage : r.stage = .running (.project (part :: todo) last records)) {record : Record}
    (hpart : P part record) :
    (l.setStage r.turn (.running (.project todo last (records.insert part record)))).Carries P := by
  refine h.setStage hr ?_
  intro todo' last' records' hjob
  cases hjob
  refine ⟨h.reusable _ r _ _ _ hr hstage, ?_⟩
  intro p found hfound
  rw [NatMap.get?_insert] at hfound
  split at hfound
  · rename_i heq
    subst heq
    obtain rfl := Option.some.inj hfound
    exact hpart
  · exact h.gathered _ r _ _ _ hr hstage p found hfound

theorem Carries.fail (h : l.Carries P) (hr : l.request? r.turn = some r) (failure : Failure) :
    (l.fail r.turn failure).Carries P := by
  have haborted : (l.mapDocument .abort).Carries P :=
    h.of_fewer l.document.installed?_abort fun _ _ _ hr _ => hr
  show ((l.mapDocument .abort).setStage r.turn (.concluded (.error failure))).Carries P
  exact haborted.setStage hr nofun

/-- Where a receipt is installed, it has the records that have been gathered. -/
theorem Carries.install (h : l.Carries P) (hr : l.request? r.turn = some r)
    {last : Option Receipt} {records : NatMap Record}
    (hstage : r.stage = .running (.project [] last records)) (outline : Outline) :
    ((l.mapDocument (·.install outline ⟨.project records, r.turn⟩)).setStage r.turn
      (.concluded (.ok ⟨.project records, r.turn⟩))).Carries P := by
  have hinstalled : ∀ i, (l.document.install outline ⟨.project records, r.turn⟩).installed? =
      some i → ∀ part record, i.receipt.get? part = some record → P part record := by
    intro i hi
    cases hproject : l.document.isProject with
    | true =>
      rw [Document.installed?_install hproject] at hi
      obtain rfl := Option.some.inj hi
      exact h.gathered _ r _ _ _ hr hstage
    | false =>
      have houtside : (l.document.install outline ⟨.project records, r.turn⟩).isProject = false :=
        (l.document.isProject_mapLifecycle _).trans hproject
      rw [Document.installed?_of_not_isProject houtside] at hi
      cases hi
  have hcarries : (l.mapDocument (·.install outline ⟨.project records, r.turn⟩)).Carries P :=
    ⟨hinstalled, h.reusable, h.gathered⟩
  exact hcarries.setStage hr nofun

/-- The record of a part has a property if all records at hand have it, and what the parser gives
for the content. -/
theorem Carries.recordOf (h : l.Carries P) (hr : l.request? r.turn = some r) {part : Nat}
    {todo : List Nat} {last : Option Receipt} {records : NatMap Record}
    (hstage : r.stage = .running (.project todo last records)) {content : ByteArray}
    {version : Int} {record : Record}
    (hrecord : (recordOf parser r last part content version).1 = .ok record)
    (hnew : ∀ parsed, parser content r.options = .ok parsed →
      P part ⟨version, parsed.outline, parsed.diagnostics, r.turn⟩) : P part record := by
  rcases recordOf_eq_ok hrecord with ⟨receipt, hreceipt, hfound⟩ | ⟨parsed, hparsed, rfl⟩
  · obtain ⟨-, hget, -⟩ := Receipt.reusable?_eq_some_iff.1 hfound
    exact h.reusable _ r _ _ _ hr hstage receipt hreceipt part record hget
  · exact hnew parsed hparsed

/-- A step of a request keeps a property of all records if a record of what it reads has it. -/
theorem Carries.moves (h : l.Carries P) (hr : l.request? r.turn = some r)
    (hmoves : l.Moves parser r l')
    (hnew : ∀ part content version parsed,
      (l.document.read part).1 = .content content version → parser content r.options = .ok parsed →
      P part ⟨version, parsed.outline, parsed.diagnostics, r.turn⟩) : l'.Carries P := by
  cases hmoves with
  | start _ _ => exact h.start hr
  | skip hstage _ hreads => exact (h.keeps hreads.toKeeps).skip (hreads.request?_eq_some hr) hstage
  | gather hstage hreading hrecord hreads =>
    have hpart := h.recordOf hr hstage hrecord fun parsed => hnew _ _ _ parsed hreading
    exact (h.keeps hreads.toKeeps).gather (hreads.request?_eq_some hr) hstage hpart
  | fail _ hkeeps _ => exact (h.keeps hkeeps).fail (hkeeps.request?_eq_some hr) _
  | install hstage _ => exact h.install hr hstage _
  | hand _ hreads => exact (h.keeps hreads.toKeeps).setStage (hreads.request?_eq_some hr) nofun
  | deliver _ =>
    have hdelivered : (l.setStage r.turn .delivered).Carries P := h.setStage hr nofun
    exact ⟨hdelivered.installed, hdelivered.reusable, hdelivered.gathered⟩
  | signal _ => exact h.setStage hr nofun
  | finish _ => exact h.setStage hr nofun

end Lane

end Reparse
