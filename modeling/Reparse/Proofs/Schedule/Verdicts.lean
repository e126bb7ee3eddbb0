import Mathlib.Logic.Function.Basic
import Reparse.Proofs.Schedule.Reading
import Reparse.Total

/-!
What the readings of the parts come to, part by part. A reading gives a record, gives none, or ends
the request, whatever the other parts say; `Lane.Ended` puts together what they come to. A request
goes through the parts from the last one on, and `Lane.Halfway` is where it stands between two of
them.
-/

namespace Reparse

theorem Document.parts_ascending (d : Document) : d.parts.Pairwise (· < ·) := by
  obtain ⟨id, uri, path, body⟩ := d
  rcases body with ⟨_ | _, _⟩ | _
  · exact NatMap.keys_ascending _
  · exact NatMap.keys_ascending _
  · exact List.pairwise_singleton _ _

theorem Receipt.outline?_eq_none_iff {r : Receipt} : r.outline? = none ↔ r.records.values = [] := by
  unfold outline?
  cases r.records.values with
  | nil => simp
  | cons record records => cases records <;> simp

namespace Lane

variable (parser : Parser) (l : Lane) (r : Request)

/-- The receipt that is installed. -/
def receipt? (l : Lane) : Option Receipt :=
  l.document.installed?.map Installed.receipt

/-- What the installed receipt has of a part. -/
def recorded? (l : Lane) (part : Nat) : Option Record :=
  l.receipt?.bind (·.get? part)

/-- The record that content at a version need not replace. -/
def reused? (l : Lane) (part : Nat) (version : Int) : Option Record :=
  (l.recorded? part).filter fun old => 0 ≤ version ∧ version ≤ old.version

/-- What a reading of a part comes to, for a request that starts in the lane: a record, no record,
or the failure that ends the request. -/
def verdict (part : Nat) : Reading → Except Failure (Option Record)
  | .unavailable => .ok none
  | .failed error => .error (.io error)
  | .panicked text => .error (l.brokenOff ⟨some text⟩)
  | .content content version =>
    match l.reused? part version with
    | some old => .ok (some old)
    | none =>
      match parser content r.options with
      | .ok parsed => .ok (some ⟨version, parsed.outline, parsed.diagnostics, r.turn⟩)
      | .error panic => .error (l.brokenOff panic)

/-- How often the parser is called for a part, given what has been read of it. -/
def callsFor (part : Nat) : Option Reading → Nat
  | some (.content _ version) => (l.reused? part version).isNone.toNat
  | _ => 0

/-- How often the parser is called for all parts. -/
def calls (readings : Nat → Option Reading) : Nat :=
  total (l.document.parts.reverse.map fun part => l.callsFor part (readings part))

/-- The end of a request that starts in the lane, given what it reads. The greatest part whose
reading comes to a failure is the one whose failure ends it, and the parts before that one are not
read. Otherwise all parts are read, and the receipt has the records that they come to, but for the
case that they come to none. -/
inductive Ended (readings : Nat → Option Reading) : Outcome → Prop where
  | failed {part : Nat} {reading : Reading} {failure : Failure} : part ∈ l.document.parts →
      readings part = some reading → l.verdict parser r part reading = .error failure →
      (∀ p ∈ l.document.parts, part < p → ∃ reading record?, readings p = some reading ∧
        l.verdict parser r p reading = .ok record?) →
      (∀ p ∈ l.document.parts, p < part → readings p = none) → Ended readings (.error failure)
  | nothing : (∀ p ∈ l.document.parts, ∃ reading, readings p = some reading ∧
        l.verdict parser r p reading = .ok none) → Ended readings (.error l.nothingToRead)
  | receipt {records : NatMap Record} : (∀ p ∈ l.document.parts, ∃ reading,
        readings p = some reading ∧ l.verdict parser r p reading = .ok (records.get? p)) →
      (∀ p ∉ l.document.parts, records.get? p = none) → (∃ p, (records.get? p).isSome = true) →
      Ended readings (.ok ⟨.project records, r.turn⟩)

variable {parser l r}

theorem reusable?_receipt? (l : Lane) (part : Nat) (version : Int) :
    (l.receipt?.bind fun receipt => receipt.reusable? part version) = l.reused? part version := by
  unfold reused? recorded?
  cases l.receipt? with
  | none => rfl
  | some receipt =>
    apply Option.ext
    intro record
    rw [Option.bind_some, Receipt.reusable?_eq_some_iff, Option.bind_some,
      Option.filter_eq_some_iff, decide_eq_true_eq]
    exact ⟨fun ⟨h, hget, h'⟩ => ⟨hget, h, h'⟩, fun ⟨hget, h, h'⟩ => ⟨h, hget, h'⟩⟩

theorem reused?_eq_some_iff {part : Nat} {version : Int} {old : Record} :
    l.reused? part version = some old ↔
      l.recorded? part = some old ∧ 0 ≤ version ∧ version ≤ old.version := by
  rw [reused?, Option.filter_eq_some_iff, decide_eq_true_eq]

/-- A record that content comes to is as new as the content, and as new as the one before. -/
theorem version_of_verdict {part : Nat} {content : ByteArray} {version : Int}
    {record? : Option Record}
    (h : l.verdict parser r part (.content content version) = .ok record?) (hknown : 0 ≤ version) :
    ∃ record, record? = some record ∧ version ≤ record.version ∧
      record.version = (l.recorded? part).elim version (max version ·.version) := by
  simp only [verdict] at h
  split at h
  · rename_i old hold
    obtain ⟨hrecorded, -, hle⟩ := reused?_eq_some_iff.1 hold
    rw [Except.ok.injEq] at h
    refine ⟨old, h.symm, hle, ?_⟩
    rw [hrecorded, Option.elim_some]
    omega
  · rename_i hnone
    split at h
    · rw [Except.ok.injEq] at h
      refine ⟨_, h.symm, Int.le_refl _, ?_⟩
      cases hrecorded : l.recorded? part with
      | none => rfl
      | some old =>
        have hlt : ¬version ≤ old.version := by
          intro hle
          rw [reused?_eq_some_iff.2 ⟨hrecorded, hknown, hle⟩] at hnone
          cases hnone
        show version = max version old.version
        omega
    · cases h

/-! ## The end is determined -/

/-- Of a part that is read in both cases, the same is read. -/
def ReadAlike (readings readings' : Nat → Option Reading) : Prop :=
  ∀ part reading reading', readings part = some reading → readings' part = some reading' →
    reading' = reading

theorem ReadAlike.symm {readings readings' : Nat → Option Reading}
    (h : ReadAlike readings readings') : ReadAlike readings' readings :=
  fun part reading reading' hread hread' => (h part reading' reading hread' hread).symm

/-- Where a request has failed, one that reads the same fails in the same way. -/
theorem Ended.eq_of_failed {readings readings' : Nat → Option Reading} {outcome : Outcome}
    (h : l.Ended parser r readings outcome) (hagree : ReadAlike readings readings')
    {part : Nat} {reading : Reading} {failure : Failure} (hpart : part ∈ l.document.parts)
    (hread : readings' part = some reading)
    (hverdict : l.verdict parser r part reading = .error failure)
    (habove : ∀ p ∈ l.document.parts, part < p → ∃ reading record?, readings' p = some reading ∧
      l.verdict parser r p reading = .ok record?)  : outcome = .error failure := by
  have hall : ∀ record?, ¬∃ reading', readings part = some reading' ∧
      l.verdict parser r part reading' = .ok record? := by
    rintro record? ⟨reading', hread', hok⟩
    rw [hagree part reading' reading hread' hread, hok] at hverdict
    cases hverdict
  cases h with
  | @failed part' reading' failure' hpart' hread' hverdict' habove' _ =>
    rcases Nat.lt_trichotomy part part' with hlt | rfl | hgt
    · obtain ⟨y, record?, hy, hok⟩ := habove part' hpart' hlt
      rw [hagree part' reading' y hread' hy, hverdict'] at hok
      cases hok
    · rw [hagree part reading' reading hread' hread, hverdict'] at hverdict
      cases hverdict
      rfl
    · obtain ⟨y, record?, hy, hok⟩ := habove' part hpart hgt
      exact absurd ⟨y, hy, hok⟩ (hall record?)
  | nothing hnone => exact absurd (hnone part hpart) (hall none)
  | receipt hrecords _ _ => exact absurd (hrecords part hpart) (hall _)

/-- What a request comes to is determined by what it reads. -/
theorem Ended.unique {readings readings' : Nat → Option Reading} {outcome outcome' : Outcome}
    (h : l.Ended parser r readings outcome) (h' : l.Ended parser r readings' outcome')
    (hagree : ReadAlike readings readings') : outcome' = outcome := by
  -- Two verdicts on a part that both have read without failure are the same.
  have hsame : ∀ {p a b}, (∃ x, readings p = some x ∧ l.verdict parser r p x = .ok a) →
      (∃ x, readings' p = some x ∧ l.verdict parser r p x = .ok b) → a = b := by
    rintro p a b ⟨x, hx, ha⟩ ⟨y, hy, hb⟩
    rw [hagree p x y hx hy, ha] at hb
    exact Except.ok.inj hb
  cases h' with
  | failed hpart hread hverdict habove _ =>
    exact (h.eq_of_failed hagree hpart hread hverdict habove).symm
  | nothing hnone' =>
    cases h with
    | failed hpart hread hverdict habove _ =>
      exact (Ended.nothing hnone').eq_of_failed hagree.symm hpart hread hverdict habove
    | nothing => rfl
    | receipt hrecords houtside hsome =>
      obtain ⟨p, hp⟩ := hsome
      by_cases hmem : p ∈ l.document.parts
      · rw [hsame (hrecords p hmem) (hnone' p hmem)] at hp
        cases hp
      · rw [houtside p hmem] at hp
        cases hp
  | @receipt records' hrecords' houtside' hsome' =>
    cases h with
    | failed hpart hread hverdict habove _ =>
      exact (Ended.receipt hrecords' houtside' hsome').eq_of_failed hagree.symm hpart hread hverdict
        habove
    | nothing hnone =>
      obtain ⟨p, hp⟩ := hsome'
      by_cases hmem : p ∈ l.document.parts
      · rw [← hsame (hnone p hmem) (hrecords' p hmem)] at hp
        cases hp
      · rw [houtside' p hmem] at hp
        cases hp
    | @receipt records hrecords houtside hsome =>
      have hrecords'' : records' = records := by
        apply NatMap.ext_of_get?
        intro p
        by_cases hmem : p ∈ l.document.parts
        · exact (hsame (hrecords p hmem) (hrecords' p hmem)).symm
        · rw [houtside p hmem, houtside' p hmem]
      rw [hrecords'']

/-! ## Between two parts -/

/-- The parts that are still to be read are the least ones, and nothing of them has been read; the
others have been read without failure, and the records are those that they come to. -/
structure Halfway (parser : Parser) (l : Lane) (r : Request) (readings : Nat → Option Reading)
    (todo : List Nat) (records : NatMap Record) : Prop where
  suffix : todo <:+ l.document.parts.reverse
  unread : ∀ p, p ∈ todo ∨ p ∉ l.document.parts → readings p = none ∧ records.get? p = none
  done : ∀ p ∈ l.document.parts, p ∉ todo → ∃ reading, readings p = some reading ∧
    l.verdict parser r p reading = .ok (records.get? p)

variable {readings : Nat → Option Reading} {part : Nat} {todo : List Nat}
  {records : NatMap Record} {reading : Reading}

theorem halfway_start (hunread : ∀ p, readings p = none) :
    l.Halfway parser r readings l.document.parts.reverse .empty where
  suffix := List.suffix_refl _
  unread := fun p _ => ⟨hunread p, rfl⟩
  done := fun _ hp hnot => absurd (List.mem_reverse.2 hp) hnot

/-- The parts that are still to be read come after the one that is read now, downwards. -/
theorem Halfway.lt_iff (h : l.Halfway parser r readings (part :: todo) records) :
    part ∈ l.document.parts ∧
      ∀ p ∈ l.document.parts, (p ∈ todo ↔ p < part) ∧ (p ∉ part :: todo ↔ part < p) := by
  obtain ⟨done, hsplit⟩ := h.suffix
  have hmem : ∀ p, p ∈ l.document.parts ↔ p ∈ done ∨ p = part ∨ p ∈ todo := by
    intro p
    rw [← List.mem_reverse, ← hsplit, List.mem_append, List.mem_cons]
  have hdescending := List.pairwise_reverse.2 l.document.parts_ascending
  rw [← hsplit, List.pairwise_append, List.pairwise_cons] at hdescending
  obtain ⟨-, ⟨hbelow, -⟩, habove⟩ := hdescending
  refine ⟨(hmem part).2 (.inr (.inl rfl)), ?_⟩
  intro p hp
  rcases (hmem p).1 hp with hdone | rfl | htodo
  · have hlt : part < p := habove p hdone part (.head _)
    refine ⟨⟨?_, fun hgt => absurd hlt (Nat.lt_asymm hgt)⟩, fun _ => hlt, fun _ => ?_⟩
    · intro htodo
      exact absurd (habove p hdone p (.tail _ htodo)) (Nat.lt_irrefl p)
    · intro hcons
      exact absurd (habove p hdone p hcons) (Nat.lt_irrefl p)
  · refine ⟨⟨?_, fun hgt => absurd hgt (Nat.lt_irrefl p)⟩, ?_,
      fun hlt => absurd hlt (Nat.lt_irrefl p)⟩
    · intro htodo
      exact hbelow p htodo
    · intro hnot
      exact absurd (.head _) hnot
  · have hlt : p < part := hbelow p htodo
    exact ⟨⟨fun _ => hlt, fun _ => htodo⟩, fun hnot => absurd (.tail _ htodo) hnot,
      fun hgt => absurd hlt (Nat.lt_asymm hgt)⟩

/-- A part has been read without failure. -/
theorem Halfway.next (h : l.Halfway parser r readings (part :: todo) records)
    {record? : Option Record} (hverdict : l.verdict parser r part reading = .ok record?) :
    l.Halfway parser r (Function.update readings part (some reading)) todo
      (record?.elim records (records.insert part)) := by
  obtain ⟨hpart, horder⟩ := h.lt_iff
  have hget : ∀ p, (record?.elim records (records.insert part)).get? p =
      if p = part then record? else records.get? p := by
    intro p
    cases record? with
    | none =>
      split
      · rename_i heq
        rw [heq]
        exact (h.unread part (.inl (.head _))).2
      · rfl
    | some record => exact NatMap.get?_insert _ _ _ _
  refine ⟨(List.suffix_cons part todo).trans h.suffix, ?_, ?_⟩
  · intro p hp
    have hne : p ≠ part := by
      rintro rfl
      rcases hp with htodo | hnot
      · exact Nat.lt_irrefl p (((horder p hpart).1).1 htodo)
      · exact hnot hpart
    rw [Function.update_of_ne hne, hget, if_neg hne]
    exact h.unread p (hp.imp (.tail _) id)
  · intro p hp hnot
    by_cases heq : p = part
    · subst heq
      rw [Function.update_self, hget, if_pos rfl]
      exact ⟨reading, rfl, hverdict⟩
    · rw [Function.update_of_ne heq, hget, if_neg heq]
      exact h.done p hp (fun hmem => (List.mem_cons.1 hmem).elim heq hnot)

/-- A part whose reading comes to a failure ends the request. -/
theorem Halfway.ended_of_failure (h : l.Halfway parser r readings (part :: todo) records)
    {failure : Failure} (hverdict : l.verdict parser r part reading = .error failure) :
    l.Ended parser r (Function.update readings part (some reading)) (.error failure) := by
  obtain ⟨hpart, horder⟩ := h.lt_iff
  refine .failed hpart (Function.update_self _ _ _) hverdict ?_ ?_
  · intro p hp hlt
    rw [Function.update_of_ne (Nat.ne_of_gt hlt)]
    obtain ⟨reading, hread, hok⟩ := h.done p hp ((horder p hp).2.2 hlt)
    exact ⟨reading, _, hread, hok⟩
  · intro p hp hlt
    rw [Function.update_of_ne (Nat.ne_of_lt hlt)]
    exact (h.unread p (.inl (.tail _ ((horder p hp).1.2 hlt)))).1

/-- All parts have been read, and they come to no record. -/
theorem Halfway.ended_of_empty (h : l.Halfway parser r readings [] records)
    (hempty : records.values = []) : l.Ended parser r readings (.error l.nothingToRead) := by
  have hnone : ∀ p, records.get? p = none := by
    intro p
    rw [NatMap.get?_eq_none_iff, NatMap.keys, List.map_eq_nil_iff.1 hempty]
    exact List.not_mem_nil
  refine .nothing ?_
  intro p hp
  have hdone := h.done p hp List.not_mem_nil
  rwa [hnone] at hdone

/-- All parts have been read, and there are records. -/
theorem Halfway.ended_of_records (h : l.Halfway parser r readings [] records)
    (hsome : records.values ≠ []) :
    l.Ended parser r readings (.ok ⟨.project records, r.turn⟩) := by
  refine .receipt (fun p hp => h.done p hp List.not_mem_nil)
    (fun p hp => (h.unread p (.inr hp)).2) ?_
  have hentries : records.entries ≠ [] := fun hnil => hsome (congrArg (List.map Prod.snd) hnil)
  obtain ⟨⟨p, record⟩, hmem⟩ := List.exists_mem_of_ne_nil _ hentries
  exact ⟨p, by rw [NatMap.get?_eq_some_iff.2 hmem]; rfl⟩

/-- One more reading adds the calls that it needs. -/
theorem Halfway.calls_next (h : l.Halfway parser r readings (part :: todo) records)
    (reading : Reading) :
    l.calls (Function.update readings part (some reading)) =
      l.calls readings + l.callsFor part (some reading) := by
  obtain ⟨done, hsplit⟩ := h.suffix
  have hnodup : (done ++ part :: todo).Nodup := by
    rw [hsplit]
    exact List.pairwise_reverse.2 (l.document.parts_ascending.imp fun hlt => Nat.ne_of_gt hlt)
  obtain ⟨-, hcons, hdisjoint⟩ := List.nodup_append.1 hnodup
  have hother : ∀ ps : List Nat, part ∉ ps →
      (ps.map fun p => l.callsFor p (Function.update readings part (some reading) p)) =
        ps.map fun p => l.callsFor p (readings p) := by
    intro ps hnot
    apply List.map_congr_left
    intro p hp
    have hne : p ≠ part := by
      rintro rfl
      exact hnot hp
    rw [Function.update_of_ne hne]
  have hbefore : part ∉ done := fun hmem => hdisjoint part hmem part (.head _) rfl
  have hzero : l.callsFor part (readings part) = 0 := by
    rw [(h.unread part (.inl (.head _))).1]
    rfl
  unfold calls
  rw [← hsplit, List.map_append, List.map_append, List.map_cons, List.map_cons, hother done hbefore,
    hother todo (List.nodup_cons.1 hcons).1, Function.update_self, total_append, total_append,
    total_cons, total_cons, hzero]
  omega

end Lane

end Reparse
