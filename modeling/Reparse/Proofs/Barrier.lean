import Mathlib.Data.List.Induction
import Reparse.Barrier

/-!
Waiting at a barrier is exact. A waiter that is polled is ready if and only if nothing is in flight
at that moment, although one that waits looks at its notification first. What carries this is that
no wakeup is lost: a waiter that has registered and has not been notified since knows that the count
is above zero. Who holds a guard and what a poll has said are told from the history alone.
-/

namespace Reparse.Barrier

/-- What is done at a barrier. -/
inductive Act where
  | enter (guard : String)
  | leave (guard : String)
  | wait (waiter : String)
  | poll (waiter : String)
deriving DecidableEq

/-- The barrier after an act. -/
def act (b : Barrier) : Act → Barrier
  | .enter guard => b.enter guard
  | .leave guard => (b.leave guard).1
  | .wait waiter => b.wait waiter
  | .poll waiter => ((b.poll? waiter).map Prod.fst).getD b

/-- The barrier after a history that begins with nothing in flight. -/
def after (acts : List Act) : Barrier :=
  acts.foldl act idle

/-- What a poll of the waiter says, if there is one. -/
def answer? (b : Barrier) (waiter : String) : Option Poll :=
  (b.poll? waiter).map Prod.snd

/-! ## Histories -/

/-- Something has happened in a history, and what would undo it has not happened since. `begins` is
given what was done before. -/
def Since (begins : List Act → Act → Prop) (undoes : Act → Prop) (acts : List Act) : Prop :=
  ∃ before a later, acts = before ++ a :: later ∧ begins before a ∧ ∀ e ∈ later, ¬undoes e

/-- The guard is live: it has been entered and not dropped since. -/
def Held (guard : String) : List Act → Prop :=
  Since (fun _ a => a = .enter guard) (· = .leave guard)

/-- The last poll of the waiter, since it was made, has said this. -/
def LastSaid (said : Poll) (waiter : String) : List Act → Prop :=
  Since (fun before a => a = .poll waiter ∧ (after before).answer? waiter = some said)
    fun e => e = .poll waiter ∨ e = .wait waiter

/-- The waiter has been ready since it was made. -/
def Finished (waiter : String) : List Act → Prop :=
  Since (fun before a => a = .poll waiter ∧ (after before).answer? waiter = some .ready)
    (· = .wait waiter)

/-- The waiter has been made, and has not been ready since. -/
def Unfinished (waiter : String) (acts : List Act) : Prop :=
  .wait waiter ∈ acts ∧ ¬Finished waiter acts

theorem not_since_nil (begins : List Act → Act → Prop) (undoes : Act → Prop) :
    ¬Since begins undoes [] := by
  rintro ⟨before, a, later, h, -⟩
  simp at h

/-- One act more begins it, or leaves it as it was. -/
theorem since_append_singleton {begins : List Act → Act → Prop} {undoes : Act → Prop}
    {acts : List Act} {e : Act} :
    Since begins undoes (acts ++ [e]) ↔ begins acts e ∨ Since begins undoes acts ∧ ¬undoes e := by
  constructor
  · rintro ⟨before, a, later, h, hbegins, hlater⟩
    rcases List.eq_nil_or_concat later with rfl | ⟨later, last, rfl⟩
    · obtain ⟨rfl, hlast⟩ := List.append_inj' h rfl
      rw [List.singleton_inj] at hlast
      exact .inl (hlast ▸ hbegins)
    · rw [List.concat_eq_append, ← List.cons_append, ← List.append_assoc] at h
      obtain ⟨rfl, hlast⟩ := List.append_inj' h rfl
      rw [List.singleton_inj] at hlast
      rw [List.concat_eq_append, List.forall_mem_append, List.forall_mem_singleton] at hlater
      exact .inr ⟨⟨before, a, later, rfl, hbegins, hlater.1⟩, hlast ▸ hlater.2⟩
  · rintro (hbegins | ⟨⟨before, a, later, rfl, hbegins, hlater⟩, he⟩)
    · exact ⟨acts, e, [], rfl, hbegins, List.forall_mem_nil _⟩
    · refine ⟨before, a, later ++ [e], by simp, hbegins, ?_⟩
      rw [List.forall_mem_append, List.forall_mem_singleton]
      exact ⟨hlater, he⟩

theorem finished_append_singleton {waiter : String} {acts : List Act} {e : Act} :
    Finished waiter (acts ++ [e]) ↔
      (e = .poll waiter ∧ (after acts).answer? waiter = some .ready) ∨
        Finished waiter acts ∧ e ≠ .wait waiter :=
  since_append_singleton

theorem lastSaid_append_singleton {said : Poll} {waiter : String} {acts : List Act} {e : Act} :
    LastSaid said waiter (acts ++ [e]) ↔
      (e = .poll waiter ∧ (after acts).answer? waiter = some said) ∨
        LastSaid said waiter acts ∧ e ≠ .poll waiter ∧ e ≠ .wait waiter := by
  rw [LastSaid, since_append_singleton, not_or]

theorem after_append_singleton (acts : List Act) (e : Act) :
    after (acts ++ [e]) = (after acts).act e := by
  rw [after, List.foldl_append]
  rfl

/-! ## What an act does to one waiter -/

/-- The waiter of a name. -/
def waiter? (b : Barrier) (name : String) : Option Waiter :=
  b.waiters.lookup name

theorem lookup_renew (ws : List (String × Waiter)) (name other : String) (w : Waiter) :
    ((name, w) :: ws.filter (·.1 != name)).lookup other =
      if other = name then some w else ws.lookup other := by
  rw [List.lookup_cons]
  by_cases h : other = name
  · simp [h]
  · rw [if_neg h, beq_false_of_ne h]
    induction ws with
    | nil => rfl
    | cons e ws ih =>
      rw [List.filter_cons, List.lookup_cons]
      by_cases he : e.1 = name
      · have hne : (other == e.1) = false := beq_false_of_ne (he ▸ h)
        simpa [he, hne, beq_false_of_ne h] using ih
      · rw [if_pos (bne_iff_ne.2 he), List.lookup_cons]
        cases other == e.1 with
        | true => rfl
        | false => exact ih

theorem lookup_notify (ws : List (String × Waiter)) (name : String) :
    (ws.map fun w => (w.1, w.2.notify)).lookup name = (ws.lookup name).map Waiter.notify := by
  induction ws with
  | nil => rfl
  | cons e ws ih =>
    rw [List.map_cons, List.lookup_cons, List.lookup_cons, ih]
    split <;> rfl

variable (b : Barrier)

theorem waiter?_wait (name other : String) :
    (b.wait name).waiter? other =
      if other = name then some ⟨.fresh, false⟩ else b.waiter? other :=
  lookup_renew b.waiters name other _

theorem answer?_eq (name : String) :
    b.answer? name = (b.waiter? name).map fun w => (w.poll b.count).2 := by
  unfold answer? poll? waiter?
  cases b.waiters.lookup name <;> rfl

/-- A poll changes the waiter and nothing else. -/
theorem act_poll (name : String) :
    b.act (.poll name) =
      match b.waiter? name with
      | some w => { b with
          waiters := (name, (w.poll b.count).1) :: b.waiters.filter (·.1 != name) }
      | none => b := by
  have hact : b.act (.poll name) = ((b.poll? name).map Prod.fst).getD b := rfl
  rw [hact, poll?, waiter?]
  cases b.waiters.lookup name <;> rfl

theorem waiter?_poll (name other : String) :
    (b.act (.poll name)).waiter? other =
      if other = name then (b.waiter? name).map fun w => (w.poll b.count).1
      else b.waiter? other := by
  rw [act_poll]
  cases h : b.waiter? name with
  | none =>
    dsimp only
    split
    · rename_i heq
      rw [heq]
      exact h
    · rfl
  | some w => exact lookup_renew b.waiters name other _

theorem count_poll (name : String) : (b.act (.poll name)).count = b.count := by
  rw [act_poll]
  cases b.waiter? name <;> rfl

theorem guards_poll (name : String) : (b.act (.poll name)).guards = b.guards := by
  rw [act_poll]
  cases b.waiter? name <;> rfl

/-- When the count falls to zero all waiters are notified. -/
theorem waiter?_decrement (name : String) :
    b.decrement.waiter? name =
      if b.count = 1 then (b.waiter? name).map Waiter.notify else b.waiter? name := by
  unfold decrement waiter?
  dsimp only
  split
  · exact lookup_notify b.waiters name
  · rfl

variable {b} {guard : String}

/-- A guard taken anew while it is held changes nothing. -/
theorem enter_of_mem (h : guard ∈ b.guards) (hpos : 0 < b.count) : b.enter guard = b := by
  have hcontains : b.guards.contains guard = true := List.contains_iff_mem.2 h
  have hne : b.count + 1 ≠ 1 := by omega
  rw [enter, if_pos hcontains, decrement, increment]
  dsimp only
  rw [if_neg hne, Nat.add_sub_cancel]

theorem enter_of_not_mem (h : guard ∉ b.guards) :
    b.enter guard = { b with count := b.count + 1, guards := guard :: b.guards } := by
  have hcontains : ¬b.guards.contains guard = true := fun hc => h (List.contains_iff_mem.1 hc)
  rw [enter, if_neg hcontains]
  rfl

theorem leave_of_mem (h : guard ∈ b.guards) :
    (b.leave guard).1 = { b.decrement with guards := b.guards.filter (· != guard) } := by
  have hcontains : b.guards.contains guard = true := List.contains_iff_mem.2 h
  rw [leave, if_pos hcontains]

theorem leave_of_not_mem (h : guard ∉ b.guards) : (b.leave guard).1 = b := by
  have hcontains : ¬b.guards.contains guard = true := fun hc => h (List.contains_iff_mem.1 hc)
  rw [leave, if_neg hcontains]

/-! ## The count and the guards -/

/-- The guards are those that the history holds, each once, and the count is their number. -/
structure Counted (acts : List Act) (b : Barrier) : Prop where
  nodup : b.guards.Nodup
  count : b.count = b.guards.length
  held : ∀ guard, guard ∈ b.guards ↔ Held guard acts

namespace Counted

variable {acts : List Act} (h : Counted acts b)

include h

theorem count_pos (hguard : guard ∈ b.guards) : 0 < b.count :=
  h.count ▸ List.length_pos_of_mem hguard

/-- What a waiter does is no matter of the guards. -/
theorem of_waiter {e : Act} {t : Barrier} (he : ∀ guard, e ≠ .enter guard ∧ e ≠ .leave guard)
    (hcount : t.count = b.count) (hguards : t.guards = b.guards) : Counted (acts ++ [e]) t := by
  refine ⟨hguards ▸ h.nodup, by rw [hcount, hguards, h.count], ?_⟩
  intro guard
  rw [hguards, h.held, Held, since_append_singleton]
  simp [he guard]

theorem enter (guard : String) : Counted (acts ++ [.enter guard]) (b.enter guard) := by
  have hheld : ∀ other, Held other (acts ++ [.enter guard]) ↔ other = guard ∨ other ∈ b.guards := by
    intro other
    rw [h.held, Held, since_append_singleton]
    simp [eq_comm]
  by_cases hguard : guard ∈ b.guards
  · rw [enter_of_mem hguard (h.count_pos hguard)]
    refine ⟨h.nodup, h.count, ?_⟩
    intro other
    rw [hheld]
    exact ⟨.inr, fun hother => hother.elim (fun heq => heq ▸ hguard) id⟩
  · rw [enter_of_not_mem hguard]
    refine ⟨List.nodup_cons.2 ⟨hguard, h.nodup⟩, ?_, ?_⟩
    · rw [List.length_cons, ← h.count]
    · intro other
      rw [hheld, List.mem_cons]

theorem leave (guard : String) : Counted (acts ++ [.leave guard]) (b.leave guard).1 := by
  have hheld : ∀ other, Held other (acts ++ [.leave guard]) ↔ other ∈ b.guards ∧ other ≠ guard := by
    intro other
    rw [h.held, Held, since_append_singleton]
    simp [eq_comm]
  by_cases hguard : guard ∈ b.guards
  · rw [leave_of_mem hguard]
    refine ⟨h.nodup.filter _, ?_, ?_⟩
    · have hfilter : b.guards.filter (· != guard) = b.guards.erase guard :=
        (h.nodup.erase_eq_filter guard).symm
      dsimp only
      rw [hfilter, List.length_erase_of_mem hguard, ← h.count]
      rfl
    · intro other
      rw [hheld]
      simp
  · rw [leave_of_not_mem hguard]
    refine ⟨h.nodup, h.count, ?_⟩
    intro other
    rw [hheld]
    exact ⟨fun hother => ⟨hother, fun heq => hguard (heq ▸ hother)⟩, And.left⟩

theorem act (e : Act) : Counted (acts ++ [e]) (b.act e) := by
  cases e with
  | enter guard => exact h.enter guard
  | leave guard => exact h.leave guard
  | wait waiter => exact h.of_waiter (by simp) rfl rfl
  | poll waiter => exact h.of_waiter (by simp) (b.count_poll waiter) (b.guards_poll waiter)

end Counted

theorem counted_after (acts : List Act) : Counted acts (after acts) := by
  induction acts using List.reverseRecOn with
  | nil =>
    exact ⟨List.nodup_nil, rfl, fun _ => iff_of_false List.not_mem_nil (not_since_nil _ _)⟩
  | append_singleton acts e ih =>
    rw [after_append_singleton]
    exact ih.act e

theorem waiter?_enter {acts : List Act} (h : Counted acts b) (guard name : String) :
    (b.enter guard).waiter? name = b.waiter? name ∧ b.count ≤ (b.enter guard).count := by
  by_cases hguard : guard ∈ b.guards
  · rw [enter_of_mem hguard (h.count_pos hguard)]
    exact ⟨rfl, Nat.le_refl _⟩
  · rw [enter_of_not_mem hguard]
    exact ⟨rfl, Nat.le_succ _⟩

theorem waiter?_leave (guard name : String) :
    ((b.leave guard).1.waiter? name = b.waiter? name ∧
        (b.count ≠ 0 → (b.leave guard).1.count ≠ 0)) ∨
      (b.leave guard).1.waiter? name = (b.waiter? name).map Waiter.notify := by
  by_cases hguard : guard ∈ b.guards
  · have hwaiter := b.waiter?_decrement name
    rw [leave_of_mem hguard]
    by_cases hcount : b.count = 1
    · rw [if_pos hcount] at hwaiter
      exact .inr hwaiter
    · rw [if_neg hcount] at hwaiter
      refine .inl ⟨hwaiter, fun hne => ?_⟩
      show b.count - 1 ≠ 0
      omega
  · rw [leave_of_not_mem hguard]
    exact .inl ⟨rfl, id⟩

/-! ## One waiter -/

/-- What a history has brought a waiter to. One that has registered and has not been notified since
knows that something is in flight, and one that has been notified has been woken. -/
structure Told (acts : List Act) (name : String) (w? : Option Waiter) (count : Nat) : Prop where
  made : w?.isSome ↔ .wait name ∈ acts
  finished : Finished name acts ↔ ∃ w ∈ w?, w.phase = .done
  pending : LastSaid .pending name acts ↔ ∃ w ∈ w?, ∃ notified, w.phase = .waiting notified
  registered : ∀ w ∈ w?, w.phase = .waiting false → count ≠ 0
  notified : ∀ w ∈ w?, w.phase = .waiting true → w.woken = true

/-- A waiter that has not been ready is polled as if it looked at the count, although one that waits
looks at its notification first. -/
theorem poll_cases {w : Waiter} {count : Nat}
    (hregistered : w.phase = .waiting false → count ≠ 0) :
    (w.phase = .done ∧ w.poll count = (⟨.done, false⟩, .done)) ∨
      (w.phase ≠ .done ∧ count = 0 ∧ w.poll count = (⟨.done, false⟩, .ready)) ∨
      (w.phase ≠ .done ∧ count ≠ 0 ∧ w.poll count = (⟨.waiting false, false⟩, .pending)) := by
  have hlook : count = 0 ∧ Waiter.look count = (⟨.done, false⟩, .ready) ∨
      count ≠ 0 ∧ Waiter.look count = (⟨.waiting false, false⟩, .pending) := by
    unfold Waiter.look
    by_cases hcount : count = 0
    · exact .inl ⟨hcount, if_pos hcount⟩
    · exact .inr ⟨hcount, if_neg hcount⟩
  unfold Waiter.poll
  cases hphase : w.phase with
  | fresh => exact .inr (hlook.imp (⟨nofun, ·⟩) (⟨nofun, ·⟩))
  | waiting notified =>
    cases notified with
    | false => exact .inr (.inr ⟨nofun, hregistered hphase, rfl⟩)
    | true => exact .inr (hlook.imp (⟨nofun, ·⟩) (⟨nofun, ·⟩))
  | done => exact .inl ⟨rfl, rfl⟩

theorem told_wait (acts : List Act) (name : String) (count : Nat) :
    Told (acts ++ [.wait name]) name (some ⟨.fresh, false⟩) count where
  made := by simp
  finished := by simp [finished_append_singleton]
  pending := by simp [lastSaid_append_singleton]
  registered := by simp
  notified := by simp

namespace Told

variable {acts : List Act} {name : String} {w? : Option Waiter} {count : Nat}
  (h : Told acts name w? count)

include h

/-- An act that is none of the waiter, and that does not let the count fall to zero. -/
theorem pass {e : Act} {count' : Nat} (hwait : e ≠ .wait name) (hpoll : e ≠ .poll name)
    (hcount : count ≠ 0 → count' ≠ 0) : Told (acts ++ [e]) name w? count' where
  made := by simp [h.made, Ne.symm hwait]
  finished := by simp [finished_append_singleton, hwait, hpoll, h.finished]
  pending := by simp [lastSaid_append_singleton, hwait, hpoll, h.pending]
  registered w hw hphase := hcount (h.registered w hw hphase)
  notified := h.notified

/-- The count falls to zero: a waiter that waits is notified and woken. -/
theorem notify {e : Act} {count' : Nat} (hwait : e ≠ .wait name) (hpoll : e ≠ .poll name) :
    Told (acts ++ [e]) name (w?.map Waiter.notify) count' := by
  have hpass : Told (acts ++ [e]) name w? count := h.pass hwait hpoll fun hne => hne
  cases w? with
  | none => exact ⟨hpass.made, hpass.finished, hpass.pending, nofun, nofun⟩
  | some w =>
    obtain ⟨phase, woken⟩ := w
    cases phase with
    | waiting notified =>
      cases notified with
      | false => exact ⟨hpass.made, by simpa [Waiter.notify] using hpass.finished,
          by simpa [Waiter.notify] using hpass.pending, by simp [Waiter.notify],
          by simp [Waiter.notify]⟩
      | true => exact ⟨hpass.made, hpass.finished, hpass.pending, by simp [Waiter.notify],
          hpass.notified⟩
    | _ => exact ⟨hpass.made, hpass.finished, hpass.pending, by simp [Waiter.notify],
        hpass.notified⟩

/-- The waiter is polled. -/
theorem poll (hsaid : (after acts).answer? name = w?.map fun w => (w.poll count).2) :
    Told (acts ++ [.poll name]) name (w?.map fun w => (w.poll count).1) count := by
  have hmade : (.wait name ∈ acts ++ [.poll name]) ↔ .wait name ∈ acts := by simp
  have hfinished : Finished name (acts ++ [.poll name]) ↔ _ := finished_append_singleton
  have hpending : LastSaid .pending name (acts ++ [.poll name]) ↔ _ := lastSaid_append_singleton
  rw [hsaid, h.finished] at hfinished
  rw [hsaid] at hpending
  cases w? with
  | none =>
    exact ⟨h.made.trans hmade.symm, by simpa using hfinished, by simpa using hpending, nofun, nofun⟩
  | some w =>
    rcases poll_cases (h.registered w rfl) with
      ⟨hdone, hpoll⟩ | ⟨hdone, hcount, hpoll⟩ | ⟨hdone, hcount, hpoll⟩ <;>
    rw [Option.map_some, hpoll] at hfinished hpending ⊢ <;>
    refine ⟨h.made.trans hmade.symm, hfinished.trans ?_, hpending.trans ?_, ?_, ?_⟩ <;>
    simp [*]

end Told

/-- Every waiter is as its history tells. -/
theorem told_after (acts : List Act) (name : String) :
    Told acts name ((after acts).waiter? name) (after acts).count := by
  induction acts using List.reverseRecOn with
  | nil =>
    exact ⟨by simp [after, idle, waiter?], iff_of_false (not_since_nil _ _) nofun,
      iff_of_false (not_since_nil _ _) nofun, nofun, nofun⟩
  | append_singleton acts e ih =>
    rw [after_append_singleton]
    cases e with
    | enter guard =>
      obtain ⟨hwaiter, hcount⟩ := waiter?_enter (counted_after acts) guard name
      show Told _ name (((after acts).enter guard).waiter? name) ((after acts).enter guard).count
      rw [hwaiter]
      exact ih.pass (by simp) (by simp) fun hne => by omega
    | leave guard =>
      show Told _ name ((leave _ guard).1.waiter? name) (leave _ guard).1.count
      rcases waiter?_leave (b := after acts) guard name with ⟨hwaiter, hcount⟩ | hwaiter
      · rw [hwaiter]
        exact ih.pass (by simp) (by simp) hcount
      · rw [hwaiter]
        exact ih.notify (by simp) (by simp)
    | wait waiter =>
      show Told _ name (((after acts).wait waiter).waiter? name) (after acts).count
      rw [waiter?_wait]
      by_cases hname : name = waiter
      · rw [if_pos hname, hname]
        exact told_wait acts waiter _
      · rw [if_neg hname]
        exact ih.pass (by simpa using Ne.symm hname) (by simp) id
    | poll waiter =>
      rw [waiter?_poll, count_poll]
      by_cases hname : name = waiter
      · subst hname
        rw [if_pos rfl]
        exact ih.poll ((after acts).answer?_eq name)
      · rw [if_neg hname]
        exact ih.pass (by simp) (by simpa using Ne.symm hname) id

/-! ## Waiting -/

theorem mem_woken_iff {name : String} :
    name ∈ b.woken ↔ name ∈ (b.waiters.filter (·.2.woken)).map Prod.fst :=
  List.mem_mergeSort

theorem mem_woken {name : String} {w : Waiter} (hw : b.waiter? name = some w)
    (hwoken : w.woken = true) : name ∈ b.woken := by
  have hmem : (name, w) ∈ b.waiters := by
    obtain ⟨front, back, heq, -⟩ := List.lookup_eq_some_iff.1 hw
    simp [heq]
  rw [mem_woken_iff, List.mem_map]
  exact ⟨(name, w), List.mem_filter.2 ⟨hmem, hwoken⟩, rfl⟩

/-- After every history the count is the number of guards that are live, and these are held once
each. A poll of a waiter that has not been ready says that it is if and only if the count is zero,
and else that it is pending. A waiter that has last been told to wait, and has not been woken
since, is right to wait: the count is not zero. -/
theorem waiting_is_exact (acts : List Act) :
    (after acts).count = (after acts).guards.length ∧ (after acts).guards.Nodup ∧
      (∀ guard, guard ∈ (after acts).guards ↔ Held guard acts) ∧
      (∀ waiter, Unfinished waiter acts → (after acts).answer? waiter =
        some (if (after acts).count = 0 then .ready else .pending)) ∧
      ∀ waiter, LastSaid .pending waiter acts → waiter ∉ (after acts).woken →
        (after acts).count ≠ 0 := by
  have hcounted := counted_after acts
  refine ⟨hcounted.count, hcounted.nodup, hcounted.held, ?_, ?_⟩
  · rintro waiter ⟨hmade, hunfinished⟩
    have htold := told_after acts waiter
    obtain ⟨w, hw⟩ := Option.isSome_iff_exists.1 (htold.made.2 hmade)
    rw [answer?_eq, hw, Option.map_some]
    rcases poll_cases (htold.registered w hw) with ⟨hdone, -⟩ | ⟨-, hcount, hpoll⟩ | ⟨-, hcount, hpoll⟩
    · exact absurd (htold.finished.2 ⟨w, hw, hdone⟩) hunfinished
    · rw [hpoll, if_pos hcount]
    · rw [hpoll, if_neg hcount]
  · intro waiter hpending hwoken
    have htold := told_after acts waiter
    obtain ⟨w, hw, notified, hphase⟩ := htold.pending.1 hpending
    cases notified with
    | false => exact htold.registered w hw hphase
    | true => exact absurd (mem_woken hw (htold.notified w hw hphase)) hwoken

/-- A guard is taken between the wakeup of a waiter and its next poll; then a second waiter comes. -/
def overtaken : List Act :=
  [.enter "a", .wait "w", .poll "w", .leave "a", .enter "b", .poll "w", .wait "v", .enter "c",
    .leave "b"]

/-- The first waiter has been woken once and has to wait again, and the second has to wait too. -/
theorem overtaken_waits :
    LastSaid .pending "w" overtaken ∧ "w" ∉ (after overtaken).woken ∧
      (after overtaken).count ≠ 0 ∧ Unfinished "v" overtaken ∧
      (after overtaken).answer? "v" = some .pending := by
  obtain ⟨-, -, -, hanswer, hwaits⟩ := waiting_is_exact overtaken
  have hsaid : LastSaid .pending "w" overtaken :=
    ⟨overtaken.take 5, .poll "w", overtaken.drop 6, rfl, ⟨rfl, by decide⟩, by decide⟩
  have hwoken : "w" ∉ (after overtaken).woken := by
    rw [mem_woken_iff]
    decide
  have hunfinished : Unfinished "v" overtaken := by
    refine ⟨by decide, fun hfinished => ?_⟩
    obtain ⟨w, hw, hdone⟩ := (told_after overtaken "v").finished.1 hfinished
    cases hw
    cases hdone
  have hcount := hwaits "w" hsaid hwoken
  exact ⟨hsaid, hwoken, hcount, hunfinished, (hanswer "v" hunfinished).trans (by rw [if_neg hcount])⟩

end Reparse.Barrier
