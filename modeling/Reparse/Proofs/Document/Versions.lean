import Reparse.Parser
import Reparse.Proofs.Schedule.Step

/-!
What a version says. Whether a record is used again is decided by its version alone, so a version
that is not negative has to stand for one content. `Buffers.Vouches` says what that comes to: the
record is not newer than what has been issued, and if the part is not newer than the record, then it
is what the record was made from. Edits that give new content a new version keep this.
-/

namespace Reparse

/-- A parser that either breaks off or gives the parse of the content. -/
def Parser.Agrees (parser : Parser) : Prop :=
  ∀ content options parsed, parser content options = .ok parsed → parsed = parse content options

theorem Parser.plain_agrees : Parser.plain.Agrees := by
  intro content options parsed h
  exact (Except.ok.inj h).symm

/-- What a record says of its part: the version, and what the parse has given. -/
def Record.findings (r : Record) : Int × Parsed :=
  (r.version, ⟨r.outline, r.diagnostics⟩)

/-- What a parse of the reading alone gives, with the version that was read. -/
def Reading.findings? (options : Options) : Reading → Option (Int × Parsed)
  | .content bytes version => some (version, parse bytes options)
  | _ => none

namespace Buffers

/-- What reading a part gives. -/
def reading (b : Buffers) (part : Nat) : Reading :=
  match b.read? part with
  | some (content, version) => .content content version
  | none => .unavailable

theorem findings?_reading (b : Buffers) (options : Options) (part : Nat) :
    (b.reading part).findings? options =
      (b.read? part).map fun (content, version) => (version, parse content options) := by
  unfold reading
  cases b.read? part <;> rfl

theorem read?_of_reading {b : Buffers} {part : Nat} {content : ByteArray} {version : Int}
    (h : b.reading part = .content content version) : b.read? part = some (content, version) := by
  unfold reading at h
  split at h
  · rename_i found heq
    cases h
    exact heq
  · cases h

/-- The edit gives content a version that has not been issued before, or none. Versions stay below
the highest one, which would be issued again. -/
def Edit.IsFresh (b : Buffers) : Edit → Prop
  | .set part content => (b.set part content).2 < maxVersion
  | .setVersion part _ version =>
    version < 0 ∨ version < maxVersion ∧ ∀ issued, b.issued.get? part = some issued →
      issued < version
  | .markUnavailable _ => True
  | .remove _ => True

/-- No part has a version above those that have been issued for it. -/
def Counted (b : Buffers) : Prop :=
  ∀ part p, b.parts.get? part = some p → 0 ≤ p.version →
    ∃ issued, b.issued.get? part = some issued ∧ p.version ≤ issued

/-- The record is not newer than what has been issued for its part, and if the part is not newer
than the record, then it is what the record was made from. -/
structure Vouches (b : Buffers) (options : Options) (part : Nat) (record : Record) : Prop where
  issued : 0 ≤ record.version →
    ∃ issued, b.issued.get? part = some issued ∧ record.version ≤ issued
  same : ∀ content version, b.read? part = some (content, version) → 0 ≤ version →
    version ≤ record.version → record.findings = (version, parse content options)

theorem counted_empty : empty.Counted := nofun

/-! ## Edits -/

/-- What an edit leaves of a part: the old part, or one that cannot be read, or one of a version
above everything issued, or one of no known version. -/
theorem read?_apply {b : Buffers} {e : Edit} (h : e.IsFresh b) {part : Nat} {content : ByteArray}
    {version : Int} (hread : (e.apply b).read? part = some (content, version))
    (hknown : 0 ≤ version) :
    b.read? part = some (content, version) ∨
      ∀ issued, b.issued.get? part = some issued → issued < version := by
  cases e with
  | set q c =>
    simp only [Edit.apply, set, read?, NatMap.get?_insert] at hread
    split at hread
    · rename_i heq
      subst heq
      right
      intro issued hissued
      simp only [Edit.IsFresh, set, lastIssued, hissued, Option.getD_some, nextVersion] at h
      simp only [lastIssued, hissued, Option.getD_some, nextVersion, Option.bind_some,
        Option.map_some, Option.some.injEq, Prod.mk.injEq] at hread
      omega
    · exact .inl hread
  | setVersion q c v =>
    simp only [Edit.apply, setVersion, read?, NatMap.get?_insert] at hread
    split at hread
    · rename_i heq
      subst heq
      right
      intro issued hissued
      obtain ⟨-, rfl⟩ : c = content ∧ v = version := by simpa using hread
      rcases h with hneg | ⟨-, habove⟩
      · omega
      · exact habove issued hissued
    · exact .inl hread
  | markUnavailable q =>
    simp only [Edit.apply, markUnavailable, read?, NatMap.get?_modify] at hread
    split at hread
    · cases hp : b.parts.get? part with
      | none => simp [hp] at hread
      | some p => simp [hp] at hread
    · exact .inl hread
  | remove q =>
    simp only [Edit.apply, remove, read?] at hread
    by_cases heq : part = q
    · simp [heq] at hread
    · rw [NatMap.get?_erase_of_ne heq] at hread
      exact .inl hread

/-- What has been issued stays issued. -/
theorem issued_apply {b : Buffers} {e : Edit} (h : e.IsFresh b) {part : Nat} {issued : Int}
    (hissued : b.issued.get? part = some issued) :
    ∃ later, (e.apply b).issued.get? part = some later ∧ issued ≤ later := by
  cases e with
  | set q c =>
    simp only [Edit.apply, set, NatMap.get?_insert]
    split
    · rename_i heq
      subst heq
      simp only [Edit.IsFresh, set, lastIssued, hissued, Option.getD_some, nextVersion] at h
      refine ⟨_, rfl, ?_⟩
      simp only [lastIssued, hissued, Option.getD_some, nextVersion]
      omega
    · exact ⟨issued, hissued, Int.le_refl _⟩
  | setVersion q c v =>
    simp only [Edit.apply, setVersion]
    split
    · exact ⟨issued, hissued, Int.le_refl _⟩
    · rw [NatMap.get?_insert]
      split
      · rename_i heq
        subst heq
        refine ⟨_, rfl, ?_⟩
        simp only [lastIssued, hissued, Option.getD_some]
        omega
      · exact ⟨issued, hissued, Int.le_refl _⟩
  | markUnavailable q => exact ⟨issued, hissued, Int.le_refl _⟩
  | remove q => exact ⟨issued, hissued, Int.le_refl _⟩

theorem Counted.apply {b : Buffers} (hb : b.Counted) {e : Edit} (h : e.IsFresh b) :
    (e.apply b).Counted := by
  intro part p hp hknown
  have hkept : b.parts.get? part = some p →
      ∃ issued, (e.apply b).issued.get? part = some issued ∧ p.version ≤ issued := by
    intro hold
    obtain ⟨issued, hissued, hle⟩ := hb part p hold hknown
    obtain ⟨later, hlater, hle'⟩ := issued_apply h hissued
    exact ⟨later, hlater, Int.le_trans hle hle'⟩
  cases e with
  | set q c =>
    by_cases heq : part = q
    · subst heq
      obtain rfl : ⟨some c, nextVersion (b.lastIssued part)⟩ = p := by
        simpa [Edit.apply, set] using hp
      refine ⟨_, ?_, Int.le_refl _⟩
      simp only [Edit.apply, set, NatMap.get?_insert_self]
    · apply hkept
      simpa only [Edit.apply, set, NatMap.get?_insert_of_ne heq] using hp
  | setVersion q c v =>
    by_cases heq : part = q
    · subst heq
      obtain rfl : ⟨some c, v⟩ = p := by simpa [Edit.apply, setVersion] using hp
      simp only [Edit.apply, setVersion]
      rw [if_neg (by simpa using hknown), NatMap.get?_insert_self]
      exact ⟨_, rfl, Int.le_max_right _ _⟩
    · apply hkept
      simpa only [Edit.apply, setVersion, NatMap.get?_insert_of_ne heq] using hp
  | markUnavailable q =>
    by_cases heq : part = q
    · subst heq
      simp only [Edit.apply, markUnavailable, NatMap.get?_modify_self] at hp
      obtain ⟨p', hp', rfl⟩ := Option.map_eq_some_iff.1 hp
      exact hb part p' hp' hknown
    · apply hkept
      simpa only [Edit.apply, markUnavailable, NatMap.get?_modify_of_ne heq] using hp
  | remove q =>
    by_cases heq : part = q
    · subst heq
      simp [Edit.apply, remove] at hp
    · apply hkept
      simpa only [Edit.apply, remove, NatMap.get?_erase_of_ne heq] using hp

theorem Vouches.apply {b : Buffers} {options : Options} {part : Nat} {record : Record}
    (hb : b.Vouches options part record) {e : Edit} (h : e.IsFresh b) :
    (e.apply b).Vouches options part record where
  issued := by
    intro hknown
    obtain ⟨issued, hissued, hle⟩ := hb.issued hknown
    obtain ⟨later, hlater, hle'⟩ := issued_apply h hissued
    exact ⟨later, hlater, Int.le_trans hle hle'⟩
  same := by
    intro content version hread hknown hle
    rcases read?_apply h hread hknown with hold | habove
    · exact hb.same content version hold hknown hle
    · -- New content is newer than all that has been issued, and so than the record.
      obtain ⟨issued, hissued, hle'⟩ := hb.issued (Int.le_trans hknown hle)
      have hlt := habove issued hissued
      omega

/-- The record of a parse of what has just been read is vouched for. -/
theorem vouches_of_read? {b : Buffers} (hb : b.Counted) {part : Nat} {content : ByteArray}
    {version : Int} (hread : b.read? part = some (content, version)) (options : Options)
    (turn : Nat) :
    b.Vouches options part ⟨version, (parse content options).outline,
      (parse content options).diagnostics, turn⟩ where
  issued := by
    intro hknown
    obtain ⟨p, hp, hcontent⟩ := Option.bind_eq_some_iff.1 hread
    obtain ⟨c, -, heq⟩ := Option.map_eq_some_iff.1 hcontent
    obtain ⟨-, rfl⟩ := Prod.mk.inj heq
    exact hb part p hp hknown
  same := by
    intro content' version' hread' _ _
    obtain ⟨rfl, rfl⟩ := Prod.mk.inj (Option.some.inj (hread.symm.trans hread'))
    rfl

end Buffers

/-! ## Touches -/

/-- Others only edit the document, and give new content a new version. -/
def Touch.IsFresh (d : Document) : Touch → Prop
  | .edit e => ∀ b, d.buffers? = some b → e.IsFresh b
  | .restock _ => False
  | .rescript _ => True
  | .begin => True
  | .abort => True

theorem Touch.isFresh_set {d : Document} {b : Buffers} {part : Nat} {content : ByteArray}
    (hb : d.buffers? = some b) (hlt : (b.set part content).2 < maxVersion) :
    Touch.IsFresh d (.edit (.set part content)) := by
  intro b' hb'
  obtain rfl := Option.some.inj (hb.symm.trans hb')
  exact hlt

/-- A touch of a document that is edited in memory is a fresh edit of its parts, or leaves them. -/
theorem Document.buffers?_touch {d : Document} {t : Touch} (h : t.IsFresh d) :
    ∃ f : Buffers → Buffers, (t.apply d).buffers? = d.buffers?.map f ∧
      ∀ b, d.buffers? = some b → f b = b ∨ ∃ e : Buffers.Edit, e.IsFresh b ∧ f b = e.apply b := by
  cases t with
  | edit e =>
    refine ⟨fun b => e.apply b, ?_, fun b hb => .inr ⟨e, h b hb, rfl⟩⟩
    obtain ⟨id, uri, path, body⟩ := d
    rcases body with ⟨_ | _, _⟩ | _ <;> rfl
  | restock store => exact h.elim
  | _ =>
    refine ⟨fun b => b, ?_, fun b _ => .inl rfl⟩
    obtain ⟨id, uri, path, body⟩ := d
    rcases body with ⟨_ | _, _⟩ | _ <;> rfl

end Reparse
