import Reparse.Proofs.Schedule.Results

/-!
What is installed in a document of the project. An installed outline stands beside the receipt it
was made from, and that receipt is the one of the newest success. Whoever fails, however far it
came, and whoever is dropped leaves both as they were.
-/

namespace Reparse

open Relation

namespace Document

/-- The outline that is installed, with its receipt. -/
def installed? (d : Document) : Option Installed :=
  d.lifecycle?.bind Lifecycle.installed

theorem isProject_eq (d : Document) : d.isProject = d.lifecycle?.isSome := by
  unfold isProject lifecycle?
  cases d.body <;> rfl

theorem isProject_mapLifecycle (d : Document) (f : Lifecycle → Lifecycle) :
    (d.mapLifecycle f).isProject = d.isProject := by
  rw [isProject_eq, isProject_eq, lifecycle?_mapLifecycle, Option.isSome_map]

/-- Whatever is done to the count of pending requests alone leaves what is installed. -/
theorem installed?_mapLifecycle (d : Document) {f : Lifecycle → Lifecycle}
    (hf : ∀ c, (f c).installed = c.installed) : (d.mapLifecycle f).installed? = d.installed? := by
  unfold installed?
  rw [lifecycle?_mapLifecycle]
  cases d.lifecycle? with
  | none => rfl
  | some c => exact hf c

theorem installed?_begin (d : Document) : d.begin.installed? = d.installed? :=
  d.installed?_mapLifecycle fun _ => rfl

theorem installed?_abort (d : Document) : d.abort.installed? = d.installed? :=
  d.installed?_mapLifecycle fun _ => rfl

theorem installed?_install {d : Document} (h : d.isProject = true) (outline : Outline)
    (receipt : Receipt) : (d.install outline receipt).installed? = some ⟨outline, receipt⟩ := by
  rw [isProject_eq, Option.isSome_iff_exists] at h
  obtain ⟨c, hc⟩ := h
  unfold installed? install
  rw [lifecycle?_mapLifecycle, hc]
  rfl

theorem installed?_of_not_isProject {d : Document} (h : d.isProject = false) :
    d.installed? = none := by
  have hnone : d.lifecycle? = none := by simpa [isProject_eq] using h
  unfold installed?
  rw [hnone]
  rfl

theorem IsNew.installed?_eq_none {d : Document} (h : d.IsNew) : d.installed? = none := by
  unfold installed? lifecycle?
  unfold IsNew at h
  cases hbody : d.body with
  | project store c =>
    rw [hbody] at h
    cases store with
    | buffers b => rw [h.2]; rfl
    | scripts s => rw [h]; rfl
  | external => rfl

theorem installed?_touch (d : Document) (t : Touch) : (t.apply d).installed? = d.installed? := by
  cases t with
  | begin => exact d.installed?_begin
  | abort => exact d.installed?_abort
  | edit e => unfold Touch.apply; dsimp only; split <;> simp_all [installed?, lifecycle?]
  | restock s => unfold Touch.apply; dsimp only; split <;> simp_all [installed?, lifecycle?]
  | rescript s => unfold Touch.apply; dsimp only; split <;> simp_all [installed?, lifecycle?]

theorem isProject_touch (d : Document) (t : Touch) : (t.apply d).isProject = d.isProject := by
  cases t with
  | begin => exact d.isProject_mapLifecycle _
  | abort => exact d.isProject_mapLifecycle _
  | edit e => unfold Touch.apply; dsimp only; split <;> simp_all [isProject]
  | restock s => unfold Touch.apply; dsimp only; split <;> simp_all [isProject]
  | rescript s => unfold Touch.apply; dsimp only; split <;> simp_all [isProject]

end Document

namespace Lane

variable {parser : Parser} {rule : TouchRule} {l l' : Lane} {r : Request}

theorem Keeps.isProject {l l₁ : Lane} (h : l.Keeps l₁) :
    l₁.document.isProject = l.document.isProject := by
  rw [Document.isProject_eq, Document.isProject_eq, h.lifecycle]

theorem Keeps.installed? {l l₁ : Lane} (h : l.Keeps l₁) :
    l₁.document.installed? = l.document.installed? := by
  unfold Document.installed?
  rw [h.lifecycle]

/-- What a step does to the document: it installs the receipt with which its request succeeds, or
it leaves what is installed. -/
theorem Moves.document (h : l.Moves parser r l') (hr : l.request? r.turn = some r) :
    ∃ stage, l'.request? r.turn = some { r with stage } ∧
      l'.document.isProject = l.document.isProject ∧
      (stage = .running .external → l.document.isProject = false) ∧
      ((∀ receipt, stage ≠ .concluded (.ok receipt)) ∧
          l'.document.installed? = l.document.installed? ∨
        (∃ receipt, stage = .concluded (.ok receipt) ∧ receipt.turn = r.turn ∧
          r.stage = .running .external ∧ l'.document.installed? = l.document.installed?) ∨
        (∃ receipt outline, stage = .concluded (.ok receipt) ∧ receipt.turn = r.turn ∧
          receipt.outline? = some outline ∧
          l'.document = l.document.install outline receipt)) := by
  cases h with
  | start hstage _ =>
    refine ⟨_, request?_setStage_self hr _, rfl, ?_, .inl ⟨nofun, rfl⟩⟩
    intro hjob
    unfold firstJob at hjob
    unfold Document.isProject
    split at hjob
    · cases hjob
    · simp [*]
  | skip hstage _ hreads =>
    exact ⟨_, request?_setStage_self (hreads.request?_eq_some hr) _, hreads.isProject, nofun,
      .inl ⟨nofun, hreads.installed?⟩⟩
  | gather hstage _ _ hreads =>
    exact ⟨_, request?_setStage_self (hreads.request?_eq_some hr) _, hreads.isProject, nofun,
      .inl ⟨nofun, hreads.installed?⟩⟩
  | @fail job failure l₁ hstage hkeeps _ =>
    refine ⟨.concluded (.error failure), ?_, ?_, nofun, .inl ⟨nofun, ?_⟩⟩
    · exact request?_setStage_self (hkeeps.request?_eq_some hr) _
    · exact (l₁.document.isProject_mapLifecycle _).trans hkeeps.isProject
    · exact l₁.document.installed?_abort.trans hkeeps.installed?
  | install hstage houtline =>
    exact ⟨_, request?_setStage_self hr _, l.document.isProject_mapLifecycle _, nofun,
      .inr (.inr ⟨_, _, rfl, rfl, houtline, rfl⟩)⟩
  | hand hstage hreads =>
    exact ⟨_, request?_setStage_self (hreads.request?_eq_some hr) _, hreads.isProject, nofun,
      .inr (.inl ⟨_, rfl, rfl, hstage, hreads.installed?⟩)⟩
  | deliver hstage => exact ⟨_, request?_setStage_self hr _, rfl, nofun, .inl ⟨nofun, rfl⟩⟩
  | signal hstage => exact ⟨_, request?_setStage_self hr _, rfl, nofun, .inl ⟨nofun, rfl⟩⟩
  | finish hstage => exact ⟨_, request?_setStage_self hr _, rfl, nofun, .inl ⟨nofun, rfl⟩⟩

/-- What is installed comes from the newest success, and no request for a document of the project
takes it for one outside. -/
structure Current (l : Lane) : Prop where
  receipt : l.document.isProject = true →
    l.document.installed?.map Installed.receipt = l.lastSuccess?
  outline : ∀ i, l.document.installed? = some i → i.receipt.outline? = some i.outline
  turn : ∀ t receipt, (t, .ok receipt) ∈ l.results → receipt.turn = t
  inside : l.document.isProject = true →
    ∀ t r, l.request? t = some r → r.stage ≠ .running .external

theorem current_ofDocument {d : Document} (h : d.IsNew) : (ofDocument d).Current := by
  refine ⟨?_, ?_, nofun, ?_⟩
  · intro _
    exact congrArg (Option.map Installed.receipt) h.installed?_eq_none
  · intro i hi
    rw [show (ofDocument d).document.installed? = none from h.installed?_eq_none] at hi
    cases hi
  · intro _ t r hr
    rw [request?_ofDocument] at hr
    cases hr

theorem Current.touch (h : l.Current) (t : Touch) : (l.mapDocument t.apply).Current where
  receipt := by
    intro hproject
    exact (congrArg _ (l.document.installed?_touch t)).trans
      (h.receipt ((l.document.isProject_touch t).symm.trans hproject))
  outline := by
    intro i hi
    exact h.outline i ((l.document.installed?_touch t).symm.trans hi)
  turn := h.turn
  inside := by
    intro hproject
    exact h.inside ((l.document.isProject_touch t).symm.trans hproject)

theorem Current.accept (h : l.Current) (options : Options) : (l.accept options).1.Current where
  receipt := by
    intro hproject
    unfold lastSuccess?
    rw [results_accept]
    exact (congrArg _ l.document.installed?_begin).trans
      (h.receipt ((l.document.isProject_mapLifecycle _).symm.trans hproject))
  outline := by
    intro i hi
    exact h.outline i (l.document.installed?_begin.symm.trans hi)
  turn := by
    intro t receipt hmem
    rw [results_accept] at hmem
    exact h.turn t receipt hmem
  inside := by
    intro hproject t r hr
    rcases of_request?_accept hr with hold | ⟨-, rfl⟩
    · exact h.inside ((l.document.isProject_mapLifecycle _).symm.trans hproject) t r hold
    · nofun

/-- No request for a document of the project comes to take it for one outside. -/
theorem Current.inside_moves (h : l.Current) (hr : l.request? r.turn = some r)
    (hmoves : l.Moves parser r l') (hproject : l'.document.isProject = true) :
    ∀ t s, l'.request? t = some s → s.stage ≠ .running .external := by
  obtain ⟨stage, hself, hsame, hinside, -⟩ := hmoves.document hr
  obtain ⟨-, -, -, -, hother⟩ := hmoves.request? hr
  intro t s hs
  rw [hsame] at hproject
  by_cases ht : t = r.turn
  · subst ht
    obtain rfl := Option.some.inj (hs.symm.trans hself)
    intro hstage
    rw [hinside hstage] at hproject
    cases hproject
  · exact h.inside hproject t s (hother t ht ▸ hs)

/-- Nothing is installed, and whatever result there is to add is no success. -/
theorem Current.of_no_success (h : l.Current) {turn : Nat} {stage : Stage}
    (hresults : l'.results = (stage.outcome?.map (turn, ·)).toList ++ l.results)
    (hfail : ∀ receipt, stage ≠ .concluded (.ok receipt))
    (hproject : l'.document.isProject = l.document.isProject)
    (hkept : l'.document.installed? = l.document.installed?)
    (hinside : l'.document.isProject = true →
      ∀ t s, l'.request? t = some s → s.stage ≠ .running .external) : l'.Current where
  receipt := by
    intro hp
    have hlast : l'.lastSuccess? = l.lastSuccess? := by
      unfold lastSuccess?
      rw [hresults, List.findSome?_append]
      cases hout : stage.outcome? with
      | none => rfl
      | some outcome =>
        cases outcome with
        | error failure => rfl
        | ok receipt => exact absurd (Stage.outcome?_eq_some_iff.1 hout) (hfail receipt)
    rw [hkept, hlast]
    exact h.receipt (hproject ▸ hp)
  outline := fun i hi => h.outline i (hkept ▸ hi)
  turn := by
    intro t receipt hmem
    rw [hresults] at hmem
    rcases List.mem_append.1 hmem with hnew | hold
    · obtain ⟨o, ho, heq⟩ := Option.map_eq_some_iff.1 (Option.mem_toList.1 hnew)
      cases heq
      exact absurd (Stage.outcome?_eq_some_iff.1 ho) (hfail receipt)
    · exact h.turn t receipt hold
  inside := hinside

section Success

variable {turn : Nat} {receipt : Receipt}

theorem Current.turn_cons (h : l.Current) (hresults : l'.results = (turn, .ok receipt) :: l.results)
    (hturn : receipt.turn = turn) : ∀ t a, (t, .ok a) ∈ l'.results → a.turn = t := by
  intro t a hmem
  rw [hresults] at hmem
  rcases List.mem_cons.1 hmem with heq | hold
  · cases heq
    exact hturn
  · exact h.turn t a hold

/-- A success of a request for a document outside installs nothing. -/
theorem Current.of_success_outside (h : l.Current)
    (hresults : l'.results = (turn, .ok receipt) :: l.results) (hturn : receipt.turn = turn)
    (houtside : l'.document.isProject = false) : l'.Current where
  receipt := fun hp => nomatch houtside.symm.trans hp
  outline := by
    intro i hi
    rw [Document.installed?_of_not_isProject houtside] at hi
    cases hi
  turn := h.turn_cons hresults hturn
  inside := fun hp => nomatch houtside.symm.trans hp

/-- A success of a request for a document of the project installs its receipt. -/
theorem Current.of_success (h : l.Current) {outline : Outline}
    (hresults : l'.results = (turn, .ok receipt) :: l.results) (hturn : receipt.turn = turn)
    (houtline : receipt.outline? = some outline)
    (hinstalled : l'.document.installed? = some ⟨outline, receipt⟩)
    (hinside : l'.document.isProject = true →
      ∀ t s, l'.request? t = some s → s.stage ≠ .running .external) : l'.Current where
  receipt := by
    intro _
    unfold lastSuccess?
    rw [hinstalled, hresults]
    rfl
  outline := by
    intro i hi
    obtain rfl := Option.some.inj (hinstalled.symm.trans hi)
    exact houtline
  turn := h.turn_cons hresults hturn
  inside := hinside

end Success

theorem Current.moves (h : l.Current) (hchain : l.Chained) (hr : l.request? r.turn = some r)
    (hmoves : l.Moves parser r l') : l'.Current := by
  obtain ⟨stage, hself, hproject, -, hcase⟩ := hmoves.document hr
  have hresults := hmoves.results hchain hr hself
  have hinside := h.inside_moves hr hmoves
  rcases hcase with ⟨hfail, hkept⟩ | ⟨receipt, rfl, hturn, hexternal, -⟩ |
    ⟨receipt, outline, rfl, hturn, houtline, hdocument⟩
  · exact h.of_no_success hresults hfail hproject hkept hinside
  · have houtside : l'.document.isProject = false := by
      rw [hproject, ← Bool.not_eq_true]
      exact fun hp => h.inside hp _ _ hr hexternal
    exact h.of_success_outside hresults hturn houtside
  · cases hp : l.document.isProject with
    | false => exact h.of_success_outside hresults hturn (hproject.trans hp)
    | true =>
      have hinstalled : l'.document.installed? = some ⟨outline, receipt⟩ := by
        rw [hdocument]
        exact Document.installed?_install hp outline receipt
      exact h.of_success hresults hturn houtline hinstalled hinside

/-- Where requests are dropped, no success is added and what is installed stays. -/
theorem installed?_dropQueued (l : Lane) :
    l.dropQueued.document.installed? = l.document.installed? := by
  unfold dropQueued
  rw [document_foldl_drop]
  exact l.document.installed?_mapLifecycle fun _ => rfl

theorem Current.drop (h : l.Current) (hchain : l.Chained)
    (hidle : ∀ r ∈ l.requests, r.stage.isUnderWay = false) : l.dropQueued.Current := by
  have hproject : l.dropQueued.document.isProject = l.document.isProject := by
    unfold dropQueued
    rw [document_foldl_drop, Document.isProject_mapLifecycle]
  have hlast : l.dropQueued.lastSuccess? = l.lastSuccess? := by
    unfold lastSuccess?
    rw [results_dropQueued hidle, List.findSome?_append, List.findSome?_eq_none_iff.2,
      Option.none_or]
    intro e he
    obtain ⟨t, -, rfl⟩ := List.mem_map.1 he
    rfl
  refine ⟨?_, ?_, ?_, ?_⟩
  · intro hp
    rw [l.installed?_dropQueued, hlast]
    exact h.receipt (hproject ▸ hp)
  · intro i hi
    exact h.outline i (l.installed?_dropQueued ▸ hi)
  · intro t receipt hmem
    rw [results_dropQueued hidle] at hmem
    rcases List.mem_append.1 hmem with hnew | hold
    · obtain ⟨u, -, heq⟩ := List.mem_map.1 hnew
      cases heq
    · exact h.turn t receipt hold
  · intro hp t r hr
    rw [hchain.numbered.request?_dropQueued] at hr
    obtain ⟨s, hs, rfl⟩ := Option.map_eq_some_iff.1 hr
    split
    · nofun
    · exact h.inside (hproject ▸ hp) t s hs

theorem Reachable.current (h : l.Reachable parser rule) : l.Current := by
  obtain ⟨d, hnew, hrun⟩ := h
  induction hrun with
  | refl => exact current_ofDocument hnew
  | tail hinit hstep ih =>
    have hchain := (chained_ofDocument d).run hinit
    cases hstep with
    | touch t _ => exact ih.touch t
    | accept options => exact ih.accept options
    | advance hadvance =>
      obtain ⟨r, hr, hmoves⟩ := advance_moves hadvance
      exact ih.moves hchain (turn_of_request? hr ▸ hr) hmoves
    | drop hidle => exact ih.drop hchain hidle

/-- A request that does not come to a success leaves what is installed at every step. -/
theorem Chained.installed?_advance {l l' l'' : Lane} (h : l.Chained) {turn : Nat}
    (hadvance : l.advance parser turn = some l') (hrun : Lane.Run parser rule l' l'')
    {failure : Failure} (hout : l''.outcome? turn = some (.error failure)) :
    l'.document.installed? = l.document.installed? := by
  obtain ⟨r, hr, hmoves⟩ := advance_moves hadvance
  obtain rfl := turn_of_request? hr
  obtain ⟨stage, hself, -, -, hcase⟩ := hmoves.document hr
  have hl' := h.moves hr hmoves
  rcases hcase with ⟨-, hkept⟩ | ⟨receipt, rfl, -, -, hkept⟩ | ⟨receipt, outline, rfl, -⟩
  · exact hkept
  · exact hkept
  · -- A success would stay, and the request has come to a failure.
    have hres := hl'.result?_run hrun (hl'.result?_eq_some_iff.2 (.inr ⟨_, hself, rfl⟩))
    have hres' := (hl'.run hrun).result?_eq_some_iff.2 (.inl hout)
    rw [hres] at hres'
    cases hres'

end Lane

namespace Workspace

/-- What is installed in a document. -/
def installed? (w : Workspace) (id : Nat) : Option Installed :=
  (w.document? id).bind Document.installed?

theorem installed?_of_get? {w : Workspace} {id : Nat} {l : Lane} (hl : w.lanes.get? id = some l) :
    w.installed? id = l.document.installed? := by
  simp only [installed?, document?, hl, Option.map_some, Option.bind_some]

/-- In every reachable workspace, what is installed in a document of the project is what its newest
success has given: the outline and the receipt of one and the same request, and nothing before the
first success. A request that ends in a failure leaves what is installed at each of its steps, and
so does the end of the runtime for those that it drops. -/
theorem installed_by_newest_success {parser : Parser} {rule : Nat → TouchRule} {w : Workspace}
    (h : Reachable parser rule w) {id : Nat} {l : Lane} (hl : w.lanes.get? id = some l)
    (hproject : l.document.isProject = true) :
    (w.installed? id).map Installed.receipt = l.lastSuccess? ∧
    (∀ i, w.installed? id = some i → i.receipt.outline? = some i.outline ∧
      l.result? i.receipt.turn = some (.ok i.receipt)) ∧
    (∀ turn w' w'' failure, w.advance parser ⟨id, turn⟩ = some w' → Run parser rule w' w'' →
      w''.outcome? ⟨id, turn⟩ = some (.error failure) → w'.installed? id = w.installed? id) ∧
    (∀ w', w.shutdown = some w' → w'.installed? id = w.installed? id) := by
  have hlane := h.lane hl
  have hcurrent := hlane.current
  have hreceipt := hcurrent.receipt hproject
  refine ⟨?_, ?_, ?_, ?_⟩
  · rw [installed?_of_get? hl]
    exact hreceipt
  · intro i hi
    rw [installed?_of_get? hl] at hi
    refine ⟨hcurrent.outline i hi, ?_⟩
    rw [hi] at hreceipt
    obtain ⟨⟨turn, outcome⟩, hmem, hok⟩ := List.exists_of_findSome?_eq_some hreceipt.symm
    cases outcome with
    | error failure => cases hok
    | ok receipt =>
      obtain rfl := Option.some.inj hok
      rw [hcurrent.turn turn _ hmem]
      exact hlane.result?_of_mem_results hmem
  · intro turn w' w'' failure hadvance hrun hout
    obtain ⟨l', hl', hadvanced⟩ := lane_of_advance hadvance hl
    obtain ⟨l'', hl'', hlaneRun⟩ := hrun.lane hl'
    rw [outcome?_of_get? hl''] at hout
    rw [installed?_of_get? hl, installed?_of_get? hl']
    exact hlane.chained.installed?_advance hadvanced hlaneRun hout
  · intro w' hshutdown
    obtain ⟨-, hlanes⟩ := shutdown_eq_some hshutdown
    have hl' : w'.lanes.get? id = some l.dropQueued := by
      rw [hlanes, NatMap.get?_mapValues, hl]
      rfl
    rw [installed?_of_get? hl, installed?_of_get? hl']
    exact l.installed?_dropQueued

/-- The first of two requests has succeeded; the second one has read one part of two, and the other
part is going to fail. -/
def interrupted : Workspace :=
  let scripts : NatMap Script := NatMap.empty
    |>.insert 0 ⟨[.content "x = 1".toUTF8 1, .failed ⟨.notFound, "gone"⟩]⟩
    |>.insert 1 ⟨[.content "y = 2".toUTF8 1, .content "y = 3".toUTF8 2]⟩
  let w := (ofSettings .standard).add ⟨1, none, none, .project (.scripts scripts) .fresh⟩
  let w := (w.enqueue (some 1) .standard true).1
  let w := (w.enqueue (some 1) .standard true).1
  let w := w.settle .plain ⟨1, 1⟩
  let w := (w.advance .plain ⟨1, 2⟩).getD w
  (w.advance .plain ⟨1, 2⟩).getD w

theorem reachable_interrupted : Reachable .plain (fun _ _ _ => True) interrupted := by
  refine ⟨.standard, ?_⟩
  unfold interrupted
  refine ReflTransGen.trans ?_ (run_advance _ _ _ _)
  refine ReflTransGen.trans ?_ (run_advance _ _ _ _)
  refine ReflTransGen.trans ?_ (run_settle _ _ _ _)
  refine .tail (.tail ?_ (.enqueue (some 1) .standard true)) (.enqueue (some 1) .standard true)
  exact .single (.add rfl rfl)

/-- The other part has failed. -/
def failed : Workspace :=
  (interrupted.advance .plain ⟨1, 2⟩).getD interrupted

/-- The failure has been delivered. -/
def reported : Workspace :=
  (failed.advance .plain ⟨1, 2⟩).getD failed

theorem interrupted_keeps_installed : Reachable .plain (fun _ _ _ => True) interrupted ∧
    interrupted.advance .plain ⟨1, 2⟩ = some failed ∧
    failed.advance .plain ⟨1, 2⟩ = some reported ∧
    reported.outcome? ⟨1, 2⟩ = some (.error (.io ⟨.notFound, "gone"⟩)) ∧
    ∃ l, interrupted.lanes.get? 1 = some l ∧ l.document.isProject = true ∧ l.parses = 3 ∧
      (interrupted.installed? 1).isSome = true ∧
      (interrupted.installed? 1).map Installed.receipt = l.lastSuccess? ∧
      failed.installed? 1 = interrupted.installed? 1 := by
  refine ⟨reachable_interrupted, rfl, rfl, rfl, _, rfl, rfl, rfl, rfl, ?_, ?_⟩
  · exact (installed_by_newest_success reachable_interrupted rfl rfl).1
  · exact (installed_by_newest_success reachable_interrupted rfl rfl).2.2.1 2 failed reported _ rfl
      (run_advance _ _ failed ⟨1, 2⟩) rfl

end Workspace

end Reparse
