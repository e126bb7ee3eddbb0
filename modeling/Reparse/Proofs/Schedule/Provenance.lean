import Reparse.Proofs.Schedule.Reading
import Reparse.Proofs.Schedule.Records

/-!
Whose options a result reflects. A record that is used again was made under the options of an
earlier request, and whether it is used again is decided by its version alone. `Lane.Logged` says
of every request at work that what it has gathered is what a parse of its own readings gives, under
the options of the requests that the records are from; and the same of every success.
-/

namespace Reparse

open Relation

theorem Document.isProject_of_buffers? {d : Document} {b : Buffers} (h : d.buffers? = some b) :
    d.isProject = true := by
  unfold buffers? at h
  unfold isProject
  split at h
  · rename_i hbody
    rw [hbody]
  · cases h

/-- Only content gives findings. -/
theorem Reading.isSome_findings?_iff {reading : Option Reading} {options : Options} :
    (reading.bind (·.findings? options)).isSome = true ↔
      ∃ content version, reading = some (.content content version) := by
  rcases reading with _ | (_ | _ | _ | _) <;> simp [findings?]

theorem Stage.Next.not_isQueued {s s' : Stage} (h : s.Next s') : s'.isQueued = false := by
  cases h <;> rfl

namespace Lane

variable {parser : Parser} {rule : TouchRule} {l l' : Lane} {r : Request}

/-! ## The options of the requests -/

/-- The requests have been accepted with the given options, number by number. -/
def Governed (l : Lane) (options : Nat → Options) : Prop :=
  ∀ r ∈ l.requests, r.options = options r.turn

theorem Governed.of_step {options : Nat → Options} (h : l'.Governed options)
    (hstep : Lane.Step parser rule l l') : l.Governed options := by
  intro r hr
  cases hstep with
  | touch t _ => exact h r hr
  | accept o => exact h r (List.mem_append_left _ hr)
  | advance hadvance =>
    obtain ⟨s, -, hmoves⟩ := advance_moves hadvance
    obtain ⟨stage, -, -, hrequests, -⟩ := hmoves.stage
    have hmem : (if r.turn = s.turn then { r with stage } else r) ∈ l'.requests := by
      rw [hrequests]
      exact List.mem_map_of_mem hr
    have hoptions := h _ hmem
    split at hoptions
    · exact hoptions
    · exact hoptions
  | drop _ =>
    have hmem : (if r.turn ∈ l.queued then { r with stage := .finished } else r) ∈
        l.dropQueued.requests := by
      unfold dropQueued
      rw [requests_foldl_drop]
      exact List.mem_map_of_mem hr
    have hoptions := h _ hmem
    split at hoptions
    · exact hoptions
    · exact hoptions

theorem Governed.of_run {options : Nat → Options} (h : l'.Governed options)
    (hrun : Lane.Run parser rule l l') : l.Governed options := by
  induction hrun with
  | refl => exact h
  | tail _ hstep ih => exact ih (h.of_step hstep)

/-- The options with which a request has been accepted. -/
def optionsOf (l : Lane) (turn : Nat) : Options :=
  ((l.request? turn).map Request.options).getD .standard

theorem optionsOf_of_request? {turn : Nat} (hr : l.request? turn = some r) :
    l.optionsOf turn = r.options := by
  rw [optionsOf, hr]
  rfl

theorem Numbered.governed (h : l.Numbered) : l.Governed l.optionsOf := by
  intro r hr
  exact (optionsOf_of_request? (h.request?_eq hr)).symm

/-! ## What requests gather -/

/-- The request that a record is from. -/
def turnOf (record : Option Record) : Nat :=
  (record.map Record.turn).getD 0

/-- The records that a request at work has gathered say what a parse of its readings says under the
options of the requests that they are from, and no part that is still to be read has been read. -/
structure Gathers (options : Nat → Options) (readings : Nat → Option Reading) (todo : List Nat)
    (records : NatMap Record) : Prop where
  findings : ∀ part, (records.get? part).map Record.findings =
    (readings part).bind (·.findings? (options (turnOf (records.get? part))))
  unread : ∀ part ∈ todo, readings part = none
  nodup : todo.Nodup

/-- The parts vouch for all records, whoever is at work gathers what a parse of its readings gives,
and so has whoever has succeeded. -/
structure Logged (l : Lane) (options : Nat → Options) (b : Buffers) : Prop where
  counted : b.Counted
  vouched : l.Carries fun part record => b.Vouches (options record.turn) part record
  running : ∀ t r todo last records, l.request? t = some r →
    r.stage = .running (.project todo last records) →
    Gathers options (l.reading? t) todo records
  unread : ∀ t, (∀ r, l.request? t = some r → r.stage = .queued) → ∀ part, l.reading? t part = none
  success : ∀ t receipt, l.result? t = some (.ok receipt) → ∀ part,
    (receipt.get? part).map Record.findings =
      (l.reading? t part).bind (·.findings? (options (turnOf (receipt.get? part))))

/-- Whoever starts has read nothing and gathered nothing. -/
theorem gathers_keys {options : Nat → Options} {readings : Nat → Option Reading}
    (h : ∀ part, readings part = none) (b : Buffers) :
    Gathers options readings b.parts.keys.reverse .empty where
  findings := by
    intro part
    rw [h part]
    rfl
  unread := fun part _ => h part
  nodup := List.pairwise_reverse.2 (b.parts.keys_ascending.imp Nat.ne_of_gt)

/-- A part has been read: its record, if it gives one, joins the others. -/
theorem Gathers.read {options : Nat → Options} {turn part : Nat} {todo : List Nat}
    {records records' : NatMap Record}
    (h : Gathers options (l.reading? turn) (part :: todo) records) (hreads : l.Reads turn part l')
    (hothers : ∀ p, p ≠ part → records'.get? p = records.get? p)
    (hpart : (records'.get? part).map Record.findings =
      (l.document.read part).1.findings? (options (turnOf (records'.get? part)))) :
    Gathers options (l'.reading? turn) todo records' where
  findings := by
    intro p
    rw [hreads.reading?]
    by_cases heq : p = part
    · subst heq
      rw [if_pos ⟨rfl, rfl⟩, hpart]
      rfl
    · rw [if_neg fun hp => heq hp.2, hothers p heq, h.findings p]
  unread := by
    intro p hp
    have hne : p ≠ part := by
      rintro rfl
      exact (List.nodup_cons.1 h.nodup).1 hp
    rw [hreads.reading?, if_neg fun heq => hne heq.2]
    exact h.unread p (.tail _ hp)
  nodup := (List.nodup_cons.1 h.nodup).2

/-- A part without content has been read. -/
theorem Gathers.skip {options : Nat → Options} {turn part : Nat} {todo : List Nat}
    {records : NatMap Record} (h : Gathers options (l.reading? turn) (part :: todo) records)
    (hreads : l.Reads turn part l') (hreading : (l.document.read part).1 = .unavailable) :
    Gathers options (l'.reading? turn) todo records := by
  refine h.read hreads (fun _ _ => rfl) ?_
  rw [h.findings part, h.unread part (.head _), hreading]
  rfl

/-- Content has been read, and the record says what a parse of it says. -/
theorem Gathers.gather {options : Nat → Options} {turn part : Nat} {todo : List Nat}
    {records : NatMap Record} (h : Gathers options (l.reading? turn) (part :: todo) records)
    (hreads : l.Reads turn part l') {content : ByteArray} {version : Int} {record : Record}
    (hreading : (l.document.read part).1 = .content content version)
    (hfindings : record.findings = (version, parse content (options record.turn))) :
    Gathers options (l'.reading? turn) todo (records.insert part record) := by
  refine h.read hreads (fun p hp => NatMap.get?_insert_of_ne hp _ _) ?_
  rw [NatMap.get?_insert_self, Option.map_some, hfindings, hreading]
  rfl

/-- The record of a part that has just been read says what a parse of the content says under the
options of the request that it is from, whether it is a new one or is used again. -/
theorem findings_recordOf {options : Nat → Options} {b : Buffers} (hparser : parser.Agrees)
    (hown : r.options = options r.turn) {last : Option Receipt}
    (hlast : ∀ receipt, last = some receipt → ∀ part record, receipt.get? part = some record →
      b.Vouches (options record.turn) part record)
    {part : Nat} {content : ByteArray} {version : Int}
    (hread : b.read? part = some (content, version)) {record : Record}
    (h : (recordOf parser r last part content version).1 = .ok record) :
    record.findings = (version, parse content (options record.turn)) := by
  rcases recordOf_eq_ok h with ⟨receipt, hreceipt, hfound⟩ | ⟨parsed, hparsed, rfl⟩
  · obtain ⟨hknown, hget, hle⟩ := Receipt.reusable?_eq_some_iff.1 hfound
    exact (hlast receipt hreceipt part record hget).same content version hread hknown hle
  · obtain rfl := hparser content r.options parsed hparsed
    rw [hown]
    rfl

theorem logged_ofDocument {d : Document} (hnew : d.IsNew) {b : Buffers} (hb : d.buffers? = some b)
    (options : Nat → Options) : (ofDocument d).Logged options b := by
  have hempty : b = .empty := by
    unfold Document.buffers? at hb
    unfold Document.IsNew at hnew
    split at hb
    · rename_i c hbody
      cases hb
      rw [hbody] at hnew
      exact hnew.1
    · cases hb
  subst hempty
  refine ⟨Buffers.counted_empty, carries_ofDocument hnew, ?_, fun _ _ _ => rfl, ?_⟩
  · intro t r todo last records hr
    rw [request?_ofDocument] at hr
    cases hr
  · intro t receipt hres
    rw [show (ofDocument d).result? t = none from rfl] at hres
    cases hres

theorem Logged.edit {options : Nat → Options} {b : Buffers} (h : l.Logged options b)
    {e : Buffers.Edit} (he : e.IsFresh b) : l.Logged options (e.apply b) where
  counted := h.counted.apply he
  vouched := h.vouched.imp fun _ _ hvouches => hvouches.apply he
  running := h.running
  unread := h.unread
  success := h.success

theorem Logged.touch {options : Nat → Options} {b : Buffers} (h : l.Logged options b) (t : Touch) :
    (l.mapDocument t.apply).Logged options b where
  counted := h.counted
  vouched := h.vouched.touch t
  running := h.running
  unread := h.unread
  success := h.success

theorem Logged.accept {options : Nat → Options} {b : Buffers} (h : l.Logged options b)
    (o : Options) : (l.accept o).1.Logged options b where
  counted := h.counted
  vouched := h.vouched.accept o
  running := by
    intro t r todo last records hr hstage
    rcases of_request?_accept hr with hold | ⟨-, rfl⟩
    · exact h.running t r todo last records hold hstage
    · cases hstage
  unread := by
    intro t hqueued
    apply h.unread t
    intro r hr
    exact hqueued r (request?_accept_of_some hr o)
  success := by
    intro t receipt hres
    rw [result?_accept] at hres
    exact h.success t receipt hres

theorem Logged.drop {options : Nat → Options} {b : Buffers} (h : l.Logged options b)
    (hchain : l.Chained) (hidle : ∀ r ∈ l.requests, r.stage.isUnderWay = false) :
    l.dropQueued.Logged options b where
  counted := h.counted
  vouched := h.vouched.drop hchain
  running := by
    intro t r todo last records hr hstage
    rw [hchain.numbered.request?_dropQueued] at hr
    obtain ⟨s, hs, rfl⟩ := Option.map_eq_some_iff.1 hr
    split at hstage
    · cases hstage
    · have hunder := hidle s (mem_of_request? hs)
      rw [hstage] at hunder
      cases hunder
  unread := by
    intro t hqueued part
    rw [reading?_dropQueued]
    apply h.unread t
    intro r hr
    have hdropped := hchain.numbered.request?_dropQueued t
    rw [hr, Option.map_some] at hdropped
    have hstage := hqueued _ hdropped
    split at hstage
    · cases hstage
    · exact hstage
  success := by
    intro t receipt hres part
    rw [reading?_dropQueued]
    exact h.success t receipt (hchain.success_of_dropQueued hres) part

/-- A step that leaves all requests but one, and what they have read, is judged by that one. -/
theorem Logged.of_others {options : Nat → Options} {b : Buffers} (h : l.Logged options b)
    (hvouched : l'.Carries fun part record => b.Vouches (options record.turn) part record)
    {turn : Nat}
    (hothers : ∀ t, t ≠ turn → l'.request? t = l.request? t ∧ l'.result? t = l.result? t ∧
      ∀ part, l'.reading? t part = l.reading? t part) (hr : l'.request? turn = some r)
    (hstarted : r.stage ≠ .queued)
    (hrunning : ∀ todo last records, r.stage = .running (.project todo last records) →
      Gathers options (l'.reading? turn) todo records)
    (hsuccess : ∀ receipt, l'.result? turn = some (.ok receipt) → ∀ part,
      (receipt.get? part).map Record.findings =
        (l'.reading? turn part).bind (·.findings? (options (turnOf (receipt.get? part))))) :
    l'.Logged options b where
  counted := h.counted
  vouched := hvouched
  running := by
    intro t s todo last records hs hstage
    by_cases heq : t = turn
    · subst heq
      obtain rfl := Option.some.inj (hr.symm.trans hs)
      exact hrunning todo last records hstage
    · obtain ⟨hrequest, -, hreading⟩ := hothers t heq
      rw [funext hreading]
      exact h.running t s todo last records (hrequest ▸ hs) hstage
  unread := by
    intro t hqueued part
    by_cases heq : t = turn
    · subst heq
      exact absurd (hqueued r hr) hstarted
    · obtain ⟨hrequest, -, hreading⟩ := hothers t heq
      rw [hreading]
      apply h.unread t
      intro s hs
      exact hqueued s (hrequest ▸ hs)
  success := by
    intro t receipt hres part
    by_cases heq : t = turn
    · subst heq
      exact hsuccess receipt hres part
    · obtain ⟨-, hresult, hreading⟩ := hothers t heq
      rw [hreading]
      exact h.success t receipt (hresult ▸ hres) part

/-! ## Moves -/

/-- The request that has moved has started, and answers for its readings: what it has gathered, and
what it has come to if it has succeeded, is what a parse of them gives. -/
structure Answers (options : Nat → Options) (l l' : Lane) (r : Request) (stage : Stage) :
    Prop where
  self : l'.request? r.turn = some { r with stage }
  started : stage ≠ .queued
  running : ∀ todo last records, stage = .running (.project todo last records) →
    Gathers options (l'.reading? r.turn) todo records
  success : ∀ receipt, stage.outcome?.or (l.result? r.turn) = some (.ok receipt) → ∀ part,
    (receipt.get? part).map Record.findings =
      (l'.reading? r.turn part).bind (·.findings? (options (turnOf (receipt.get? part))))

section Moves

variable {options : Nat → Options} {b : Buffers}

/-- If the request that has moved answers for its readings, the whole lane is in order. -/
theorem Logged.of_answers (h : l.Logged options b) (hchain : l.Chained)
    (hr : l.request? r.turn = some r) (hmoves : l.Moves parser r l')
    (hvouched : l'.Carries fun part record => b.Vouches (options record.turn) part record)
    {stage : Stage} (hanswers : Answers options l l' r stage) : l'.Logged options b := by
  obtain ⟨-, -, -, -, hother⟩ := hmoves.request? hr
  have hresult := hmoves.result? hchain hr hanswers.self
  refine h.of_others hvouched ?_ hanswers.self hanswers.started hanswers.running ?_
  · intro t ht
    refine ⟨hother t ht, ?_, ?_⟩
    · rw [hresult t, if_neg ht]
    · intro part
      exact (hmoves.reading? t part).resolve_right fun hnew => ht hnew.1
  · intro receipt hres
    rw [hresult r.turn, if_pos rfl] at hres
    exact hanswers.success receipt hres

/-- The parts vouch for the records of a request that reads them as they are. -/
theorem Logged.vouched_moves (hparser : parser.Agrees) (h : l.Logged options b)
    (hb : l.document.buffers? = some b) (hr : l.request? r.turn = some r)
    (hown : r.options = options r.turn) (hmoves : l.Moves parser r l') :
    l'.Carries fun part record => b.Vouches (options record.turn) part record := by
  refine h.vouched.moves hr hmoves ?_
  intro part content version parsed hreading hparsed
  rw [Document.read_of_buffers? hb] at hreading
  obtain rfl := hparser content r.options parsed hparsed
  rw [hown]
  exact Buffers.vouches_of_read? h.counted (Buffers.read?_of_reading hreading)
    (options r.turn) r.turn

theorem Logged.unread_of_queued (h : l.Logged options b) (hr : l.request? r.turn = some r)
    (hqueued : r.stage = .queued) : ∀ part, l.reading? r.turn part = none := by
  apply h.unread r.turn
  intro s hs
  obtain rfl := Option.some.inj (hr.symm.trans hs)
  exact hqueued

theorem Logged.answers_start (h : l.Logged options b) (hb : l.document.buffers? = some b)
    (hr : l.request? r.turn = some r) (hstage : r.stage = .queued) :
    Answers options l (l.setStage r.turn (.running l.firstJob)) r (.running l.firstJob) where
  self := request?_setStage_self hr _
  started := nofun
  running := by
    intro todo last records hjob
    rw [firstJob_of_buffers? hb] at hjob
    cases hjob
    exact gathers_keys (h.unread_of_queued hr hstage) b
  success := h.success r.turn

/-- A request at work has read a part, and goes on with the next one. -/
theorem answers_read (hchain : l.Chained) (hr : l.request? r.turn = some r) {job : Job}
    (hstage : r.stage = .running job) {part : Nat} {l₁ : Lane} (hreads : l.Reads r.turn part l₁)
    {todo : List Nat} {last : Option Receipt} {records : NatMap Record}
    (hgathers : Gathers options (l₁.reading? r.turn) todo records) :
    Answers options l (l₁.setStage r.turn (.running (.project todo last records))) r
      (.running (.project todo last records)) where
  self := request?_setStage_self (hreads.request?_eq_some hr) _
  started := nofun
  running := by
    intro todo' last' records' hjob
    cases hjob
    exact hgathers
  success := by
    intro receipt hres
    rw [hchain.result?_of_running hr hstage] at hres
    cases hres

theorem Logged.answers_gather (hparser : parser.Agrees) (h : l.Logged options b)
    (hchain : l.Chained) (hb : l.document.buffers? = some b) (hr : l.request? r.turn = some r)
    (hown : r.options = options r.turn) {part : Nat} {todo : List Nat} {last : Option Receipt}
    {records : NatMap Record}
    (hstage : r.stage = .running (.project (part :: todo) last records)) {content : ByteArray}
    {version : Int} {record : Record} {l₁ : Lane}
    (hreading : (l.document.read part).1 = .content content version)
    (hrecord : (recordOf parser r last part content version).1 = .ok record)
    (hreads : l.Reads r.turn part l₁) :
    Answers options l
      (l₁.setStage r.turn (.running (.project todo last (records.insert part record)))) r
      (.running (.project todo last (records.insert part record))) := by
  have hread := hreading
  rw [Document.read_of_buffers? hb] at hread
  have hfindings := findings_recordOf hparser hown (h.vouched.reusable r.turn r _ _ _ hr hstage)
    (Buffers.read?_of_reading hread) hrecord
  have hgathers := h.running r.turn r _ _ _ hr hstage
  exact answers_read hchain hr hstage hreads (hgathers.gather hreads hreading hfindings)

/-- The receipt of a request has what it has gathered. -/
theorem Logged.answers_install (h : l.Logged options b) (hr : l.request? r.turn = some r)
    {last : Option Receipt} {records : NatMap Record}
    (hstage : r.stage = .running (.project [] last records)) (outline : Outline) :
    Answers options l
      ((l.mapDocument (·.install outline ⟨.project records, r.turn⟩)).setStage r.turn
        (.concluded (.ok ⟨.project records, r.turn⟩))) r
      (.concluded (.ok ⟨.project records, r.turn⟩)) where
  self := request?_setStage_self (l := l.mapDocument _) hr _
  started := nofun
  running := nofun
  success := by
    intro receipt hres
    cases hres
    exact (h.running r.turn r _ _ _ hr hstage).findings

theorem Logged.moves (hparser : parser.Agrees) (h : l.Logged options b) (hchain : l.Chained)
    (hcurrent : l.Current) (hb : l.document.buffers? = some b) (hr : l.request? r.turn = some r)
    (hown : r.options = options r.turn) (hmoves : l.Moves parser r l') : l'.Logged options b := by
  have hvouched := h.vouched_moves hparser hb hr hown hmoves
  suffices hanswers : ∃ stage, Answers options l l' r stage by
    obtain ⟨stage, hanswers⟩ := hanswers
    exact h.of_answers hchain hr hmoves hvouched hanswers
  cases hmoves with
  | start hstage _ => exact ⟨_, h.answers_start hb hr hstage⟩
  | skip hstage hreading hreads =>
    have hgathers := h.running r.turn r _ _ _ hr hstage
    exact ⟨_, answers_read hchain hr hstage hreads (hgathers.skip hreads hreading)⟩
  | gather hstage hreading hrecord hreads =>
    exact ⟨_, h.answers_gather hparser hchain hb hr hown hstage hreading hrecord hreads⟩
  | @fail job failure l₁ hstage hkeeps _ =>
    exact ⟨.concluded (.error failure), request?_setStage_self (hkeeps.request?_eq_some hr) _,
      nofun, nofun, nofun⟩
  | install hstage _ => exact ⟨_, h.answers_install hr hstage _⟩
  | hand hstage _ =>
    exact absurd hstage (hcurrent.inside (Document.isProject_of_buffers? hb) _ _ hr)
  | _ => exact ⟨_, request?_setStage_self hr _, nofun, nofun, h.success r.turn⟩

end Moves

/-- Whoever edits a document that is edited in memory leaves it one. -/
theorem isSome_buffers?_step (hrule : ∀ d t, rule d t → t.IsFresh d)
    (hstep : Lane.Step parser rule l l') :
    l'.document.buffers?.isSome = l.document.buffers?.isSome := by
  cases hstep with
  | touch t hallowed =>
    obtain ⟨f, hf, -⟩ := Document.buffers?_touch (hrule _ _ hallowed)
    have hmap : (l.mapDocument t.apply).document.buffers? = l.document.buffers?.map f := hf
    rw [hmap, Option.isSome_map]
  | accept o => exact congrArg Option.isSome (l.document.buffers?_mapLifecycle _)
  | advance hadvance =>
    obtain ⟨r, -, hmoves⟩ := advance_moves hadvance
    rw [hmoves.buffers?]
  | drop _ => rw [buffers?_dropQueued]

theorem isSome_buffers?_run (hrule : ∀ d t, rule d t → t.IsFresh d)
    (hrun : Lane.Run parser rule l l') :
    l'.document.buffers?.isSome = l.document.buffers?.isSome := by
  induction hrun with
  | refl => rfl
  | tail _ hstep ih => rw [isSome_buffers?_step hrule hstep, ih]

theorem exists_buffers?_run (hrule : ∀ d t, rule d t → t.IsFresh d)
    (hrun : Lane.Run parser rule l l') {b : Buffers} (hb : l.document.buffers? = some b) :
    ∃ b', l'.document.buffers? = some b' := by
  rw [← Option.isSome_iff_exists, isSome_buffers?_run hrule hrun, hb]
  rfl

theorem logged_step (hparser : parser.Agrees) (hrule : ∀ d t, rule d t → t.IsFresh d)
    {options : Nat → Options} (h : ∀ b, l.document.buffers? = some b → l.Logged options b)
    (hchain : l.Chained) (hcurrent : l.Current) (hgoverned : l.Governed options)
    (hstep : Lane.Step parser rule l l') {b : Buffers} (hb : l'.document.buffers? = some b) :
    l'.Logged options b := by
  cases hstep with
  | touch t hallowed =>
    obtain ⟨f, hf, hedit⟩ := Document.buffers?_touch (hrule _ _ hallowed)
    obtain ⟨b', hb', rfl⟩ := Option.map_eq_some_iff.1 (hf.symm.trans hb)
    rcases hedit b' hb' with hsame | ⟨e, he, hsame⟩
    · rw [hsame]
      exact (h b' hb').touch t
    · rw [hsame]
      exact ((h b' hb').touch t).edit he
  | accept o => exact (h b ((l.document.buffers?_mapLifecycle _).symm.trans hb)).accept o
  | advance hadvance =>
    obtain ⟨r, hr, hmoves⟩ := advance_moves hadvance
    obtain rfl := turn_of_request? hr
    have hown := hgoverned r (mem_of_request? hr)
    have hb' := hmoves.buffers?.symm.trans hb
    exact (h b hb').moves hparser hchain hcurrent hb' hr hown hmoves
  | drop hidle => exact (h b (l.buffers?_dropQueued.symm.trans hb)).drop hchain hidle

theorem Reachable.logged_of_governed (hparser : parser.Agrees)
    (hrule : ∀ d t, rule d t → t.IsFresh d) (h : l.Reachable parser rule) {options : Nat → Options}
    (hgoverned : l.Governed options) {b : Buffers} (hb : l.document.buffers? = some b) :
    l.Logged options b := by
  obtain ⟨d, hnew, hrun⟩ := h
  induction hrun generalizing b with
  | refl => exact logged_ofDocument hnew hb options
  | @tail l l' hinit hstep ih =>
    have hgoverned' := hgoverned.of_step hstep
    have hreachable : l.Reachable parser rule := ⟨d, hnew, hinit⟩
    exact logged_step hparser hrule (fun b hb => ih hgoverned' hb) hreachable.chained
      hreachable.current hgoverned' hstep hb

/-! ## The requests that records are from -/

/-- A request that has started. -/
def Started (l : Lane) (turn : Nat) : Prop :=
  ∃ r, l.request? turn = some r ∧ r.stage.isQueued = false

theorem Moves.started (h : l.Moves parser r l') (hr : l.request? r.turn = some r) :
    l'.Started r.turn := by
  obtain ⟨stage, hnext, -, hself, -⟩ := h.request? hr
  exact ⟨_, hself, hnext.not_isQueued⟩

theorem Chained.started_step (h : l.Chained) (hstep : Lane.Step parser rule l l') {turn : Nat}
    (hstarted : l.Started turn) : l'.Started turn := by
  obtain ⟨s, hs, hqueued⟩ := hstarted
  cases hstep with
  | touch t _ => exact ⟨s, hs, hqueued⟩
  | accept options => exact ⟨s, request?_accept_of_some hs options, hqueued⟩
  | advance hadvance =>
    obtain ⟨r, hr, hmoves⟩ := advance_moves hadvance
    obtain rfl := turn_of_request? hr
    by_cases heq : turn = r.turn
    · subst heq
      exact hmoves.started hr
    · obtain ⟨-, -, -, -, hother⟩ := hmoves.request? hr
      exact ⟨s, (hother turn heq).trans hs, hqueued⟩
  | drop _ =>
    refine ⟨s, ?_, hqueued⟩
    rw [h.numbered.request?_dropQueued, hs, Option.map_some, if_neg]
    rw [hqueued]
    nofun

/-- While a request is at work, no later one has started. -/
theorem Chained.le_of_started (h : l.Chained) {turn : Nat} (hr : l.request? turn = some r)
    (hactive : r.stage.isActive = true) {other : Nat} (hstarted : l.Started other) :
    other ≤ turn := by
  obtain ⟨s, hs, hqueued⟩ := hstarted
  apply Nat.le_of_not_lt
  intro hlt
  simp only [Stage.isActive, Bool.and_eq_true, Bool.not_eq_true'] at hactive
  rcases h.order turn other r s hlt hr hs with hwaits | hsignalled
  · rw [hqueued] at hwaits
    cases hwaits
  · rw [hactive.2] at hsignalled
    cases hsignalled

/-- Every record is from a request that has started, and the records of a success are from that
request or earlier ones. -/
structure Authored (l : Lane) : Prop where
  carried : l.Carries fun _ record => l.Started record.turn
  success : ∀ t receipt, l.result? t = some (.ok receipt) → ∀ part record,
    receipt.get? part = some record → record.turn ≤ t ∧ l.Started record.turn

/-- A request that succeeds had gathered every record of its receipt. -/
theorem Moves.gathered_of_success (h : l.Moves parser r l') (hr : l.request? r.turn = some r)
    {receipt : Receipt}
    (hself : l'.request? r.turn = some { r with stage := .concluded (.ok receipt) }) {part : Nat}
    {record : Record} (hrecord : receipt.get? part = some record) :
    ∃ last records, r.stage = .running (.project [] last records) ∧
      records.get? part = some record := by
  have key : ∀ next, l'.request? r.turn = some { r with stage := next } →
      next = .concluded (.ok receipt) := by
    intro next hnext
    exact congrArg Request.stage (Option.some.inj (hnext.symm.trans hself))
  cases h with
  | start _ _ => cases key _ (request?_setStage_self hr _)
  | skip _ _ hreads => cases key _ (request?_setStage_self (hreads.request?_eq_some hr) _)
  | gather _ _ _ hreads => cases key _ (request?_setStage_self (hreads.request?_eq_some hr) _)
  | @fail _ failure _ _ hkeeps _ =>
    cases key (.concluded (.error failure)) (request?_setStage_self (hkeeps.request?_eq_some hr) _)
  | install hstage _ =>
    cases key _ (request?_setStage_self hr _)
    exact ⟨_, _, hstage, hrecord⟩
  | hand _ hreads =>
    cases key _ (request?_setStage_self (hreads.request?_eq_some hr) _)
    cases hrecord
  | _ => cases key _ (request?_setStage_self hr _)

theorem Authored.moves (h : l.Authored) (hchain : l.Chained) (hr : l.request? r.turn = some r)
    (hmoves : l.Moves parser r l') (hkept : ∀ turn, l.Started turn → l'.Started turn) :
    l'.Authored := by
  refine ⟨?_, ?_⟩
  · refine (h.carried.imp fun _ record => hkept record.turn).moves hr hmoves ?_
    intro part content version parsed _ _
    exact hmoves.started hr
  · intro t receipt hres part record hrecord
    have hold : l.result? t = some (.ok receipt) →
        record.turn ≤ t ∧ l'.Started record.turn := by
      intro hres
      obtain ⟨hle, hstarted⟩ := h.success t receipt hres part record hrecord
      exact ⟨hle, hkept _ hstarted⟩
    obtain ⟨stage, -, -, hself, -⟩ := hmoves.request? hr
    rw [hmoves.result? hchain hr hself t] at hres
    split at hres
    · rename_i heq
      subst heq
      rcases Option.or_eq_some_iff.1 hres with hnew | ⟨-, hres⟩
      · -- Whoever is at work has no later one started, and so no record from a later one.
        rw [Stage.outcome?_eq_some_iff.1 hnew] at hself
        obtain ⟨last, records, hstage, hget⟩ := hmoves.gathered_of_success hr hself hrecord
        have hstarted := h.carried.gathered r.turn r _ _ _ hr hstage part record hget
        exact ⟨hchain.le_of_started hr (by rw [hstage]; rfl) hstarted, hkept _ hstarted⟩
      · exact hold hres
    · exact hold hres

theorem Reachable.authored (h : l.Reachable parser rule) : l.Authored := by
  obtain ⟨d, hnew, hrun⟩ := h
  induction hrun with
  | refl =>
    refine ⟨carries_ofDocument hnew, ?_⟩
    intro t receipt hres
    rw [show (ofDocument d).result? t = none from rfl] at hres
    cases hres
  | @tail l l' hinit hstep ih =>
    have hchain : l.Chained := Reachable.chained ⟨d, hnew, hinit⟩
    have hkept : ∀ turn, l.Started turn → l'.Started turn := by
      intro turn hstarted
      exact hchain.started_step hstep hstarted
    have hcarried := ih.carried.imp fun _ record => hkept record.turn
    have hsuccess : ∀ t receipt, l.result? t = some (.ok receipt) → ∀ part record,
        receipt.get? part = some record → record.turn ≤ t ∧ l'.Started record.turn := by
      intro t receipt hres part record hrecord
      obtain ⟨hle, hstarted⟩ := ih.success t receipt hres part record hrecord
      exact ⟨hle, hkept _ hstarted⟩
    cases hstep with
    | touch t _ => exact ⟨hcarried.touch t, hsuccess⟩
    | accept options =>
      refine ⟨hcarried.accept options, ?_⟩
      intro t receipt hres
      rw [result?_accept] at hres
      exact hsuccess t receipt hres
    | advance hadvance =>
      obtain ⟨r, hr, hmoves⟩ := advance_moves hadvance
      obtain rfl := turn_of_request? hr
      exact ih.moves hchain hr hmoves hkept
    | drop _ =>
      refine ⟨hcarried.drop hchain, ?_⟩
      intro t receipt hres
      exact hsuccess t receipt (hchain.success_of_dropQueued hres)

/-! ## What a success says -/

section Success

variable (hparser : parser.Agrees) (hrule : ∀ d t, rule d t → t.IsFresh d)
  (h : l.Reachable parser rule) {b : Buffers} (hb : l.document.buffers? = some b)

include hparser hrule h hb

/-- A request that has just been accepted has read nothing. -/
theorem Reachable.reading?_accept (options : Options) (part : Nat) :
    (l.accept options).1.reading? (l.requests.length + 1) part = none := by
  have hnumbered := h.chained.numbered
  have hlogged := h.logged_of_governed hparser hrule hnumbered.governed hb
  apply hlogged.unread
  intro r hr
  rw [hnumbered.request?_length] at hr
  cases hr

variable {turn : Nat} {receipt : Receipt} (hresult : l.result? turn = some (.ok receipt))

include hresult

theorem Reachable.findings_of_success (part : Nat) :
    (receipt.get? part).map Record.findings =
      (l.reading? turn part).bind (·.findings? (l.optionsOf (turnOf (receipt.get? part)))) :=
  (h.logged_of_governed hparser hrule h.chained.numbered.governed hb).success turn receipt
    hresult part

/-- A success has a record of exactly those parts that had content. -/
theorem Reachable.isSome_get?_iff (part : Nat) : (receipt.get? part).isSome = true ↔
    ∃ content read, l.reading? turn part = some (.content content read) := by
  have hfindings := h.findings_of_success hparser hrule hb hresult part
  rw [← Reading.isSome_findings?_iff, ← hfindings, Option.isSome_map]

/-- A record of a success says what a parse of the content gives under the options of the request
that the record is from. -/
theorem Reachable.findings_of_author {part : Nat} {record : Record} {content : ByteArray}
    {read : Int} (hrecord : receipt.get? part = some record)
    (hreading : l.reading? turn part = some (.content content read)) :
    ∃ author, l.request? record.turn = some author ∧ author.turn ≤ turn ∧
      record.findings = (read, parse content author.options) := by
  obtain ⟨hle, author, hauthor, -⟩ := h.authored.success _ receipt hresult part record hrecord
  have hfindings := h.findings_of_success hparser hrule hb hresult part
  rw [hrecord, hreading] at hfindings
  refine ⟨author, hauthor, turn_of_request? hauthor ▸ hle, ?_⟩
  rw [← optionsOf_of_request? hauthor]
  exact Option.some.inj hfindings

end Success

end Lane

namespace Workspace

/-- A result reflects, part by part, the options of the request that its record is from. Let a
document be edited in memory, by fresh edits alone. A request has the options that were in force at
its acceptance, and what it reads the document said after that. If it succeeds, its receipt has a
record of exactly those parts that had content; the record is from this request or an earlier one,
and says what a parse of the very content that this request has read gives under the options of
that one. So it says what a parse under the own options gives exactly if the two parses agree. -/
theorem records_reflect_options_of_authors {parser : Parser} (hparser : parser.Agrees) {id : Nat}
    {rule : Nat → TouchRule} (hrule : ∀ d t, rule id d t → t.IsFresh d) {w₀ w : Workspace}
    (hreach : Reachable parser rule w₀) {l₀ : Lane} {b : Buffers}
    (hl₀ : w₀.lanes.get? id = some l₀) (hb : l₀.document.buffers? = some b)
    {version : LanguageVersion} {ticket : Ticket}
    (haccepted : (w₀.enqueue (some id) version true).2 = .ok ticket)
    (hrun : Run parser rule (w₀.enqueue (some id) version true).1 w) {receipt : Receipt}
    (hout : w.outcome? ticket = some (.ok receipt)) :
    ∃ l own, w.lanes.get? id = some l ∧ l.request? ticket.turn = some own ∧
      own.options = w₀.settings.options version l₀.document.uri.isSome ∧
      (∀ part reading, l.reading? ticket.turn part = some reading →
        ∃ v d, Run parser rule (w₀.enqueue (some id) version true).1 v ∧ Run parser rule v w ∧
          v.document? id = some d ∧ reading = (d.read part).1) ∧
      (∀ part, (receipt.get? part).isSome = true ↔
        ∃ content read, l.reading? ticket.turn part = some (.content content read)) ∧
      ∀ part record content read, receipt.get? part = some record →
        l.reading? ticket.turn part = some (.content content read) →
        ∃ author, l.request? record.turn = some author ∧ author.turn ≤ ticket.turn ∧
          record.findings = (read, parse content author.options) ∧
          (record.findings = (read, parse content own.options) ↔
            parse content author.options = parse content own.options) := by
  have hreach₀ := hreach.lane hl₀
  have hchain₀ := hreach₀.chained
  rw [enqueue_of_get? hl₀] at haccepted
  obtain rfl := Except.ok.inj haccepted
  generalize hoptions : w₀.settings.options version l₀.document.uri.isSome = options
  have hl₁ : (w₀.enqueue (some id) version true).1.lanes.get? id = some (l₀.accept options).1 := by
    rw [enqueue_of_get? hl₀, NatMap.get?_insert_self, hoptions]
  obtain ⟨l, hl, hlane⟩ := hrun.lane hl₁
  have haccept : Lane.Run parser (rule id) l₀ l := .head (.accept options) hlane
  have hreach' := hreach₀.run haccept
  obtain ⟨stage, hown⟩ :=
    (hchain₀.accept options).request?_run hlane (hchain₀.numbered.request?_accept_new options)
  obtain ⟨b', hb'⟩ := Lane.exists_buffers?_run hrule haccept hb
  rw [outcome?_of_get? hl] at hout
  have hresult := hreach'.chained.result?_eq_some_iff.2 (.inl hout)
  refine ⟨l, _, hl, hown, rfl, ?_, hreach'.isSome_get?_iff hparser hrule hb' hresult, ?_⟩
  · intro part reading hreading
    exact hrun.reading? hl₁ hl (hreach₀.reading?_accept hparser hrule hb options part) hreading
  · intro part record content read hrecord hreading
    obtain ⟨author, hauthor, hle, hgives⟩ :=
      hreach'.findings_of_author hparser hrule hb' hresult hrecord hreading
    refine ⟨author, hauthor, hle, hgives, ?_⟩
    rw [hgives, Prod.mk.injEq]
    exact and_iff_right rfl

/-- A part has been parsed; after that names are not to be listed any more, and another part has
come in. -/
def resettled : Workspace :=
  let w := (ofSettings .standard).add ⟨1, none, none, .project (.buffers .empty) .fresh⟩
  let w := w.mapDocument 1 (Touch.apply · (.edit (.set 0 "x = 1".toUTF8)))
  let w := (w.enqueue (some 1) .standard true).1
  let w := w.settle .plain ⟨1, 1⟩
  let w := w.setSettings { Settings.standard with bindNames := false }
  w.mapDocument 1 (Touch.apply · (.edit (.set 1 "y = 2".toUTF8)))

/-- The document has been parsed again. -/
def reparsed : Workspace :=
  (resettled.enqueue (some 1) .standard true).1.settle .plain ⟨1, 2⟩

theorem reachable_resettled : Reachable .plain (fun _ d t => t.IsFresh d) resettled := by
  refine ⟨.standard, ?_⟩
  unfold resettled
  refine .tail ?_ (.touch (.edit (.set 1 "y = 2".toUTF8)) rfl (Touch.isFresh_set rfl (by decide)))
  refine .tail ?_ (.setSettings { Settings.standard with bindNames := false })
  refine ReflTransGen.trans ?_ (run_settle _ _ _ _)
  refine .tail ?_ (.enqueue (some 1) .standard true)
  refine .tail ?_ (.touch (.edit (.set 0 "x = 1".toUTF8)) rfl (Touch.isFresh_set rfl (by decide)))
  exact .single (.add ⟨rfl, rfl⟩ rfl)

/-- The first part keeps the record of the first request, made under other options. -/
theorem reparsed_reflects_authors : Reachable .plain (fun _ d t => t.IsFresh d) resettled ∧
    (resettled.enqueue (some 1) .standard true).2 = .ok ⟨1, 2⟩ ∧
    ∃ l own author receipt record, reparsed.lanes.get? 1 = some l ∧ l.request? 2 = some own ∧
      reparsed.outcome? ⟨1, 2⟩ = some (.ok receipt) ∧ receipt.get? 0 = some record ∧
      l.request? record.turn = some author ∧ author.turn = 1 ∧
      own.options.bindNames = false ∧ author.options.bindNames = true ∧
      record.findings = (1, parse "x = 1".toUTF8 author.options) ∧
      (record.findings = (1, parse "x = 1".toUTF8 own.options) ↔
        parse "x = 1".toUTF8 author.options = parse "x = 1".toUTF8 own.options) := by
  have hrun : Run .plain (fun _ d t => t.IsFresh d)
      (resettled.enqueue (some 1) .standard true).1 reparsed := run_settle _ _ _ _
  obtain ⟨l, receipt, record, hl, hreceipt, hrecord, hturn, hreading, hnames⟩ :
      ∃ l receipt record, reparsed.lanes.get? 1 = some l ∧
        reparsed.outcome? ⟨1, 2⟩ = some (.ok receipt) ∧ receipt.get? 0 = some record ∧
        record.turn = 1 ∧ l.reading? 2 0 = some (.content "x = 1".toUTF8 1) ∧
        (l.optionsOf 1).bindNames = true :=
    ⟨_, _, _, rfl, rfl, rfl, rfl, rfl, rfl⟩
  obtain ⟨l', own, hl', hown, hoptions, -, -, hauthors⟩ := records_reflect_options_of_authors
    Parser.plain_agrees (fun _ _ h => h) reachable_resettled (rfl : resettled.lanes.get? 1 = some _)
    rfl (rfl : (resettled.enqueue (some 1) .standard true).2 = .ok ⟨1, 2⟩) hrun hreceipt
  obtain rfl := Option.some.inj (hl.symm.trans hl')
  obtain ⟨author, hauthor, -, hgives, hiff⟩ := hauthors 0 record _ 1 hrecord hreading
  have hfirst := Lane.turn_of_request? hauthor
  rw [hturn] at hfirst
  rw [hturn] at hauthor
  rw [Lane.optionsOf_of_request? hauthor] at hnames
  refine ⟨reachable_resettled, rfl, l, own, author, receipt, record, hl, hown, hreceipt, hrecord,
    hturn.symm ▸ hauthor, hfirst, ?_, hnames, hgives, hiff⟩
  rw [hoptions]
  rfl

/-- A result does not always reflect the options with which its request has been accepted. -/
theorem not_forall_records_reflect_own_options :
    ¬ ∀ w₀ w version ticket receipt l own, Reachable .plain (fun _ d t => t.IsFresh d) w₀ →
      (w₀.enqueue (some 1) version true).2 = .ok ticket →
      Run .plain (fun _ d t => t.IsFresh d) (w₀.enqueue (some 1) version true).1 w →
      w.outcome? ticket = some (.ok receipt) → w.lanes.get? 1 = some l →
      l.request? ticket.turn = some own → ∀ part record content read,
      receipt.get? part = some record →
      l.reading? ticket.turn part = some (.content content read) →
      record.findings = (read, parse content own.options) := by
  intro hall
  have heq := hall resettled reparsed .standard ⟨1, 2⟩ _ _ _ reachable_resettled rfl
    (run_settle _ _ _ _) rfl rfl rfl 0 _ "x = 1".toUTF8 1 rfl rfl
  have hnames := congrArg (fun f : Int × Parsed => f.2.outline.names) heq
  exact absurd hnames (by decide +kernel)

end Workspace

end Reparse
