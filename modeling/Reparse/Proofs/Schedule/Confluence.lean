import Reparse.Proofs.Schedule.Progress

/-!
Requests that are left to themselves come to the same end in every order. Two requests that can
both take a step do not disturb each other: they are for different documents, or one of them has
signalled and only takes its last step, which nobody waits for. So the steps can be taken in either
order, and whatever order they are taken in to the end, the end is the same.
-/

namespace Reparse

namespace NatMap

variable {α : Type}

theorem insert_comm {j k : Nat} (h : j ≠ k) (m : NatMap α) (a b : α) :
    (m.insert j a).insert k b = (m.insert k b).insert j a := by
  apply ext_of_get?
  intro i
  simp only [get?_insert]
  by_cases hk : i = k
  · have hj : i ≠ j := fun hj => h (hj.symm.trans hk)
    rw [if_pos hk, if_neg hj, if_pos hk]
  · rw [if_neg hk, if_neg hk]

theorem insert_insert (m : NatMap α) (k : Nat) (a b : α) :
    (m.insert k a).insert k b = m.insert k b := by
  apply ext_of_get?
  intro i
  simp only [get?_insert]
  split <;> rfl

end NatMap

namespace Lane

variable {parser : Parser} {l l' : Lane} {r : Request}

/-! ## Changes to requests that a step does not see -/

/-- The lane with all requests changed. -/
def mapRequests (l : Lane) (g : Request → Request) : Lane :=
  { l with requests := l.requests.map g }

theorem setStage_eq_mapRequests (l : Lane) (turn : Nat) (stage : Stage) :
    l.setStage turn stage =
      l.mapRequests fun r => if r.turn = turn then { r with stage } else r := rfl

/-- The change leaves the numbers of the requests, and the request with the given number. -/
structure Spares (g : Request → Request) (turn : Nat) : Prop where
  numbers : ∀ r, (g r).turn = r.turn
  self : ∀ r, r.turn = turn → g r = r

variable {g : Request → Request} {turn : Nat}

theorem request?_mapRequests (h : Spares g turn) (l : Lane) (other : Nat) :
    (l.mapRequests g).request? other = (l.request? other).map g := by
  unfold request? mapRequests
  rw [List.find?_map]
  congr 2
  funext r
  simp only [Function.comp, h.numbers]

theorem setStage_mapRequests (h : Spares g turn) (l : Lane) (stage : Stage) :
    (l.mapRequests g).setStage turn stage = (l.setStage turn stage).mapRequests g := by
  simp only [setStage, mapRequests, List.map_map]
  congr 2
  funext r
  simp only [Function.comp]
  by_cases heq : r.turn = turn
  · rw [h.self r heq, if_pos heq, h.self { r with stage } heq]
  · rw [if_neg (h.numbers r ▸ heq), if_neg heq]

theorem start_mapRequests (h : Spares g turn) (l : Lane) :
    (l.mapRequests g).start turn = (l.start turn).mapRequests g := by
  rw [start_eq, start_eq]
  exact setStage_mapRequests h l _

theorem fail_mapRequests (h : Spares g turn) (l : Lane) (failure : Failure) :
    (l.mapRequests g).fail turn failure = (l.fail turn failure).mapRequests g :=
  setStage_mapRequests h (l.mapDocument .abort) _

theorem readPart_mapRequests (h : Spares g r.turn) (l : Lane) (part : Nat) (todo : List Nat)
    (last : Option Receipt) (records : NatMap Record) :
    (l.mapRequests g).readPart parser r part todo last records =
      (l.readPart parser r part todo last records).mapRequests g := by
  unfold readPart
  have hread : (l.mapRequests g).read r.turn part =
      ((l.read r.turn part).1, (l.read r.turn part).2.mapRequests g) := rfl
  rw [hread]
  generalize l.read r.turn part = read
  obtain ⟨reading, l₁⟩ := read
  cases reading with
  | unavailable => exact setStage_mapRequests h l₁ _
  | failed error => exact fail_mapRequests h l₁ _
  | panicked text => exact fail_mapRequests h l₁ _
  | content content version =>
    dsimp only
    generalize recordOf parser r last part content version = made
    obtain ⟨result, calls⟩ := made
    cases result with
    | ok record => exact setStage_mapRequests h { l₁ with parses := l₁.parses + calls } _
    | error panic => exact fail_mapRequests h { l₁ with parses := l₁.parses + calls } _

theorem conclude_mapRequests (h : Spares g r.turn) (l : Lane) (records : NatMap Record) :
    (l.mapRequests g).conclude r records = (l.conclude r records).mapRequests g := by
  unfold conclude
  dsimp only
  split
  · exact fail_mapRequests h l _
  · rename_i outline _
    exact setStage_mapRequests h (l.mapDocument (·.install outline ⟨.project records, r.turn⟩)) _

theorem workOutside_mapRequests (h : Spares g r.turn) (l : Lane) :
    (l.mapRequests g).workOutside r = (l.workOutside r).mapRequests g := by
  unfold workOutside
  have hread : (l.mapRequests g).read r.turn 0 =
      ((l.read r.turn 0).1, (l.read r.turn 0).2.mapRequests g) := rfl
  rw [hread]
  generalize l.read r.turn 0 = read
  obtain ⟨reading, l₁⟩ := read
  cases reading with
  | unavailable => exact fail_mapRequests h l₁ _
  | failed error => exact fail_mapRequests h l₁ _
  | panicked text => exact fail_mapRequests h l₁ _
  | content content version =>
    dsimp only
    have hhand : (l₁.mapRequests g).document = l₁.document := rfl
    rw [hhand]
    generalize l₁.document.hand content version = handed
    obtain ⟨document, refused⟩ := handed
    cases refused with
    | some failure => exact fail_mapRequests h { l₁ with document } _
    | none => exact setStage_mapRequests h { l₁ with document } _

theorem released_mapRequests (h : Spares g turn)
    (hsignalled : ∀ p ∈ l.requests, (g p).stage.hasSignalled = p.stage.hasSignalled)
    (after : Option Nat) : (l.mapRequests g).released after = l.released after := by
  cases after with
  | none => rfl
  | some other =>
    simp only [released, request?_mapRequests h]
    cases hp : l.request? other with
    | none => rfl
    | some p => exact hsignalled p (mem_of_request? hp)

/-- A step of a request does not see what is changed about other requests, unless they signal. -/
theorem advance_mapRequests (h : Spares g turn)
    (hsignalled : ∀ p ∈ l.requests, (g p).stage.hasSignalled = p.stage.hasSignalled) :
    (l.mapRequests g).advance parser turn = (l.advance parser turn).map (·.mapRequests g) := by
  unfold advance
  rw [request?_mapRequests h]
  cases hr : l.request? turn with
  | none => rfl
  | some r =>
    obtain rfl := turn_of_request? hr
    rw [Option.map_some, h.self r rfl]
    dsimp only
    cases hstage : r.stage with
    | queued =>
      dsimp only
      rw [released_mapRequests h hsignalled, start_mapRequests h]
      split <;> rfl
    | running job =>
      rcases job with ⟨_ | ⟨part, todo⟩, last, records⟩ | _
      · exact congrArg some (conclude_mapRequests h l records)
      · exact congrArg some (readPart_mapRequests h l part todo last records)
      · exact congrArg some (workOutside_mapRequests h l)
    | concluded outcome =>
      dsimp only [deliver]
      rw [setStage_mapRequests h]
      rfl
    | delivered => exact congrArg some (setStage_mapRequests h l _)
    | signalled => exact congrArg some (setStage_mapRequests h l _)
    | finished => rfl

/-! ## Two requests for one document -/

theorem advance_of_signalled (hr : l.request? turn = some r) (hstage : r.stage = .signalled) :
    l.advance parser turn = some (l.setStage turn .finished) := by
  unfold advance
  rw [hr]
  dsimp only
  rw [hstage]

/-- Whether a request that has signalled has finished is not seen by others. -/
theorem Numbered.advance_setStage_finished (hl : l.Numbered) (hr : l.request? turn = some r)
    (hstage : r.stage = .signalled) {other : Nat} (hne : other ≠ turn) :
    (l.setStage turn .finished).advance parser other =
      (l.advance parser other).map (·.setStage turn .finished) := by
  rw [setStage_eq_mapRequests]
  refine advance_mapRequests ⟨?_, ?_⟩ ?_
  · intro q
    split <;> rfl
  · intro q hq
    rw [if_neg fun heq => hne (hq.symm.trans heq)]
  · intro p hp
    split
    · rename_i heq
      have hp' := hl.request?_eq hp
      rw [heq] at hp'
      obtain rfl := Option.some.inj (hr.symm.trans hp')
      rw [hstage]
      rfl
    · rfl

/-- Whoever has a request behind it that can take a step has signalled. -/
theorem Chained.signalled_of_advance (h : l.Chained) {t u : Nat} (htu : t < u)
    (hr : l.request? t = some r) (hu : l.advance parser u = some l') :
    r.stage.hasSignalled = true := by
  obtain ⟨s, hs, hmoves⟩ := advance_moves hu
  obtain ⟨stage, -, hreleased, -⟩ := hmoves.stage
  rcases h.order t u r s htu hr hs with hqueued | hsignalled
  · exact h.signalled_of_released htu hr hs (hreleased (Stage.isQueued_iff.1 hqueued))
  · exact hsignalled

theorem Chained.advance_comm_of_lt (h : l.Chained) {t u : Nat} (htu : t < u) {a b : Lane}
    (ht : l.advance parser t = some a) (hu : l.advance parser u = some b) :
    ∃ c, a.advance parser u = some c ∧ b.advance parser t = some c := by
  obtain ⟨r, hr, -⟩ := advance_moves ht
  obtain ⟨s, hs, hmoves⟩ := advance_moves hu
  -- The one in front has signalled, and all that it can do is to finish.
  have hstage : r.stage = .signalled := by
    have hsignalled := h.signalled_of_advance htu hr hu
    cases hcase : r.stage with
    | signalled => rfl
    | finished =>
      rw [advance_of_finished hr hcase] at ht
      cases ht
    | _ =>
      rw [hcase] at hsignalled
      cases hsignalled
  obtain rfl := Option.some.inj (ht.symm.trans (advance_of_signalled hr hstage))
  refine ⟨b.setStage t .finished, ?_, ?_⟩
  · rw [h.numbered.advance_setStage_finished hr hstage (Nat.ne_of_gt htu), hu]
    rfl
  · obtain rfl := turn_of_request? hs
    obtain ⟨-, -, -, -, hother⟩ := hmoves.request? hs
    exact advance_of_signalled ((hother t (Nat.ne_of_lt htu)).trans hr) hstage

/-- Steps of two requests can be taken in either order. -/
theorem Chained.advance_comm (h : l.Chained) {t u : Nat} (htu : t ≠ u) {a b : Lane}
    (ht : l.advance parser t = some a) (hu : l.advance parser u = some b) :
    ∃ c, a.advance parser u = some c ∧ b.advance parser t = some c := by
  rcases Nat.lt_or_gt_of_ne htu with hlt | hgt
  · exact h.advance_comm_of_lt hlt ht hu
  · obtain ⟨c, hb, ha⟩ := h.advance_comm_of_lt hgt hu ht
    exact ⟨c, ha, hb⟩

end Lane

namespace Workspace

variable {parser : Parser} {rule : Nat → TouchRule} {w a b : Workspace}

/-! ## Two requests of a workspace -/

/-- Steps of two requests can be taken in either order. -/
theorem Reachable.advance_comm (h : Reachable parser rule w) {t u : Ticket} (htu : t ≠ u)
    (ht : w.advance parser t = some a) (hu : w.advance parser u = some b) :
    ∃ c, a.advance parser u = some c ∧ b.advance parser t = some c := by
  obtain ⟨l, la, r, hl, hr, hla, rfl⟩ := advance_eq_some_iff.1 ht
  obtain ⟨m, mb, s, hm, hs, hmb, rfl⟩ := advance_eq_some_iff.1 hu
  obtain ⟨id, turn⟩ := t
  obtain ⟨id', turn'⟩ := u
  by_cases hid : id = id'
  · -- In one lane, either step leaves the other request as it is.
    subst hid
    obtain rfl := Option.some.inj (hl.symm.trans hm)
    have hne : turn ≠ turn' := fun heq => htu (congrArg (Ticket.mk id) heq)
    have hchain := (h.lane hl).chained
    obtain ⟨lc, hac, hbc⟩ := hchain.advance_comm hne hla hmb
    have hsa : la.request? turn' = some s := by
      obtain ⟨q, hq, hmoves⟩ := Lane.advance_moves hla
      obtain rfl := Lane.turn_of_request? hq
      obtain ⟨-, -, -, -, hother⟩ := hmoves.request? hq
      exact (hother turn' hne.symm).trans hs
    have hrb : mb.request? turn = some r := by
      obtain ⟨q, hq, hmoves⟩ := Lane.advance_moves hmb
      obtain rfl := Lane.turn_of_request? hq
      obtain ⟨-, -, -, -, hother⟩ := hmoves.request? hq
      exact (hother turn hne).trans hr
    refine ⟨_, advance_eq_some_iff.2 ⟨la, lc, s, NatMap.get?_insert_self _ _ _, hsa, hac, rfl⟩,
      advance_eq_some_iff.2 ⟨mb, lc, r, NatMap.get?_insert_self _ _ _, hrb, hbc, ?_⟩⟩
    dsimp only
    rw [NatMap.insert_insert, NatMap.insert_insert, Nat.sub_right_comm]
  · have hma : (w.lanes.insert id la).get? id' = some m :=
      (NatMap.get?_insert_of_ne (Ne.symm hid) _ _).trans hm
    have hlb : (w.lanes.insert id' mb).get? id = some l :=
      (NatMap.get?_insert_of_ne hid _ _).trans hl
    refine ⟨_, advance_eq_some_iff.2 ⟨m, mb, s, hma, hs, hmb, rfl⟩,
      advance_eq_some_iff.2 ⟨l, la, r, hlb, hr, hla, ?_⟩⟩
    dsimp only
    rw [NatMap.insert_comm hid, Nat.sub_right_comm]

/-! ## One end -/

/-- However requests that are left to themselves take their steps, they come to the same end. -/
theorem Reachable.drains_unique (h : Reachable parser rule w) {order order' : List Ticket}
    (ha : Drains parser w order a) (hb : Drains parser w order' b) : a = b := by
  induction hleft : w.stepsLeft using Nat.strongRecOn generalizing w order order' a b with
  | ind left ih =>
    subst hleft
    cases order with
    | nil =>
      obtain rfl := Option.some.inj ha.played
      cases order' with
      | nil => exact Option.some.inj hb.played
      | cons u order' =>
        obtain ⟨v, hv, -⟩ := play_cons_eq_some.1 hb.played
        rw [ha.atRest] at hv
        cases hv
    | cons t order =>
      obtain ⟨v, hv, hva⟩ := play_cons_eq_some.1 ha.played
      cases order' with
      | nil =>
        obtain rfl := Option.some.inj hb.played
        rw [hb.atRest] at hv
        cases hv
      | cons u order' =>
        obtain ⟨v', hv', hvb⟩ := play_cons_eq_some.1 hb.played
        have hreach : Reachable parser rule v := h.run (.single (.advance hv))
        have hreach' : Reachable parser rule v' := h.run (.single (.advance hv'))
        by_cases htu : t = u
        · subst htu
          obtain rfl := Option.some.inj (hv.symm.trans hv')
          exact ih _ (h.stepsLeft_lt hv) hreach ⟨hva, ha.atRest⟩ ⟨hvb, hb.atRest⟩ rfl
        · -- Both ways lead on to one workspace, and from there to some end.
          obtain ⟨c, hc, hc'⟩ := h.advance_comm htu hv hv'
          obtain ⟨rest, d, hd⟩ := (hreach.run (.single (.advance hc))).exists_drains
          have hvd : Drains parser v (u :: rest) d :=
            ⟨play_cons_eq_some.2 ⟨c, hc, hd.played⟩, hd.atRest⟩
          have hvd' : Drains parser v' (t :: rest) d :=
            ⟨play_cons_eq_some.2 ⟨c, hc', hd.played⟩, hd.atRest⟩
          exact (ih _ (h.stepsLeft_lt hv) hreach ⟨hva, ha.atRest⟩ hvd rfl).trans
            (ih _ (h.stepsLeft_lt hv') hreach' ⟨hvb, hb.atRest⟩ hvd' rfl).symm

end Workspace

end Reparse
