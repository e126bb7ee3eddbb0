import Reparse.CommandLine.Run
import Reparse.Disk.Files
import Reparse.Proofs.CommandLine.Arguments
import Reparse.Proofs.CommandLine.Lines
import Reparse.Proofs.Schedule.Pointwise

/-!
Runs of the command line, file by file. Whatever steps the requests take while other files are
still being loaded, the request for a file comes to nothing but the parse of that file, and it has
delivered that before it is taken from the count. So the reports are those on the single files.
-/

namespace Reparse

open Relation

/-- The document that is loaded from a file. -/
def Disk.document (id : Nat) (path : String) (content : ByteArray) : Document where
  id := id
  uri := some (uri path)
  path := some path
  body := .project (.buffers (Buffers.empty.set 0 content).1) .fresh

theorem Disk.load_eq (disk : Disk) (id : Nat) (path : String) :
    disk.load id path =
      match disk path with
      | .error e => .error (.io e)
      | .ok content =>
        if sizeLimit < content.size then .error (.fileTooLarge content.size sizeLimit)
        else .ok (document id path content) :=
  rfl

namespace Lane

/-! ## The only request for a file -/

/-- Requests take steps, and nothing else happens. -/
abbrev Advances (parser : Parser) : Lane → Lane → Prop :=
  ReflTransGen fun l l' => ∃ turn, l.advance parser turn = some l'

theorem Advances.run {parser : Parser} {rule : TouchRule} {l l' : Lane}
    (h : Advances parser l l') : Lane.Run parser rule l l' := by
  induction h with
  | refl => exact .refl
  | tail _ hstep ih =>
    obtain ⟨turn, hadvance⟩ := hstep
    exact ih.tail (.advance hadvance)

/-- A file that has been loaded, with a request for it. -/
def ofFile (id : Nat) (path : String) (content : ByteArray) (options : Options) : Lane :=
  ((ofDocument (Disk.document id path content)).accept options).1

/-- The record of the parse of a file. -/
def fileRecord (content : ByteArray) (options : Options) : Record :=
  ⟨1, (parse content options).outline, (parse content options).diagnostics, 1⟩

section OfFile

variable {id : Nat} {path : String} {content : ByteArray} {options : Options} {l : Lane}

/-- The request is the only one, so the first step is its start. -/
theorem starts_ofFile {turn : Nat}
    (h : (ofFile id path content options).advance .plain turn = some l) :
    Starts .plain (ofFile id path content options) ⟨1, options, none, .queued⟩ l := by
  obtain ⟨r, hr, -⟩ := advance_moves h
  have hone : r = ⟨1, options, none, .queued⟩ := List.mem_singleton.1 (mem_of_request? hr)
  have hturn := turn_of_request? hr
  rw [hone] at hturn
  subst hturn
  exact ⟨.head _, rfl, h⟩

/-- The request comes to the parse of the file. -/
theorem ended_ofFile {readings : Nat → Option Reading} {outcome : Outcome}
    (h : (ofFile id path content options).Ended .plain ⟨1, options, none, .queued⟩ readings outcome)
    (hreadings : ∀ part reading, readings part = some reading →
      reading = (Buffers.empty.set 0 content).1.reading part) :
    outcome = .ok ⟨.project (NatMap.empty.insert 0 (fileRecord content options)), 1⟩ := by
  have hended : (ofFile id path content options).Ended .plain ⟨1, options, none, .queued⟩
      (fun part => some ((Buffers.empty.set 0 content).1.reading part))
      (.ok ⟨.project (NatMap.empty.insert 0 (fileRecord content options)), 1⟩) := by
    refine .receipt ?_ ?_ ⟨0, rfl⟩
    · intro part hpart
      obtain rfl : part = 0 := List.mem_singleton.1 hpart
      exact ⟨_, rfl, rfl⟩
    · intro part hpart
      refine NatMap.get?_insert_of_ne ?_ _ _
      rintro rfl
      exact hpart (.head _)
  refine hended.unique h ?_
  intro part reading reading' hread hread'
  rw [hreadings part reading' hread']
  exact Option.some.inj hread

/-- Once the request has finished, it has delivered the parse of the file. -/
theorem outcome?_ofFile (h : Advances .plain (ofFile id path content options) l)
    (hfinished : ∀ r ∈ l.requests, r.stage = .finished) :
    l.outcome? 1 =
      some (.ok ⟨.project (NatMap.empty.insert 0 (fileRecord content options)), 1⟩) := by
  rcases ReflTransGen.cases_head h with rfl | ⟨l₁, ⟨turn, hadvance⟩, hrest⟩
  · cases hfinished _ (.head _)
  · have hstart := starts_ofFile hadvance
    have hinit : Lane.Run .plain (fun _ _ => False)
        (.ofDocument (Disk.document id path content)) (ofFile id path content options) :=
      .single (.accept options)
    obtain ⟨-, hchain₁, hpursues₁, hunread₁⟩ := hstart.pursues hinit rfl
    have hrun : Lane.Run .plain (fun _ _ => False) l₁ l := Advances.run hrest
    have hpursues := hpursues₁.run hchain₁ hrun
    have hchain := hchain₁.run hrun
    obtain ⟨stage, hr, -⟩ := hpursues.started
    obtain rfl : stage = .finished := hfinished _ (mem_of_request? hr)
    obtain ⟨outcome, hout⟩ := Option.isSome_iff_exists.1
      (hchain.isSome_outcome?_of_finished hr rfl)
    obtain ⟨r, hr₀, hmoves⟩ := advance_moves hadvance
    have hb : l₁.document.buffers? = some (Buffers.empty.set 0 content).1 :=
      hmoves.buffers?.trans rfl
    obtain ⟨-, hreadings⟩ := reading?_of_quiet (fun _ _ => not_false) hrun hb hunread₁
    have hended := hpursues.ended outcome (hchain.result?_eq_some_iff.2 (.inl hout))
    have hout' : l.outcome? 1 = some outcome := hout
    rw [hout', ended_ofFile hended hreadings]

end OfFile

end Lane

namespace CommandLine

/-! ## The report on a single file -/

/-- The report on a file: that it cannot be loaded, or what its parse gives. -/
def fileReport (disk : Disk) (directory : String) (settings : Settings)
    (version : LanguageVersion) (path : String) : Report :=
  match disk (Disk.absolute directory path) with
  | .error e => ⟨path, none, 0, [], some (Failure.io e).message⟩
  | .ok content =>
    if Disk.sizeLimit < content.size then
      ⟨path, none, 0, [], some (Failure.fileTooLarge content.size Disk.sizeLimit).message⟩
    else
      let parsed := parse content (settings.options version true)
      ⟨path, some 1, parsed.outline.statements.length, parsed.diagnostics, none⟩

theorem path_fileReport (disk : Disk) (directory : String) (settings : Settings)
    (version : LanguageVersion) (path : String) :
    (fileReport disk directory settings version path).path = path := by
  unfold fileReport
  split
  · rfl
  · split <;> rfl

theorem ofOutcome_fileRecord (path : String) (content : ByteArray) (options : Options) :
    Report.ofOutcome path
        (.ok ⟨.project (NatMap.empty.insert 0 (Lane.fileRecord content options)), 1⟩) =
      ⟨path, some 1, (parse content options).outline.statements.length,
        (parse content options).diagnostics, none⟩ := by
  have hvalues : (NatMap.empty.insert 0 (Lane.fileRecord content options)).values =
      [Lane.fileRecord content options] := rfl
  simp only [Report.ofOutcome, Receipt.version?, Receipt.records, Receipt.diagnostics, hvalues,
    List.map_cons, List.map_nil, List.flatMap_cons, List.flatMap_nil, List.append_nil, total_cons,
    total_nil, Nat.add_zero]
  rfl

/-! ## Steps of requests while files are loaded -/

/-- Files are loaded and parses of them are requested one after the other, the next one under the
number given, and in between and at the end the requests so far take steps, in any order. -/
inductive Serves (disk : Disk) (directory : String) (version : LanguageVersion) : Workspace → Nat →
    List String → Workspace → List (String × Except Failure Ticket) → Prop where
  | done (w : Workspace) (id : Nat) : Serves disk directory version w id [] w []
  | advance {w w' w'' : Workspace} {id : Nat} {t : Ticket} {files : List String}
      {tickets : List (String × Except Failure Ticket)} : w.advance .plain t = some w' →
      Serves disk directory version w' id files w'' tickets →
      Serves disk directory version w id files w'' tickets
  | load {w w' : Workspace} {id : Nat} {path : String} {files : List String}
      {tickets : List (String × Except Failure Ticket)} :
      Serves disk directory version (request disk directory version w id path).1 (id + 1) files w'
        tickets →
      Serves disk directory version w id (path :: files) w'
        ((path, (request disk directory version w id path).2) :: tickets)

section Serves

variable {disk : Disk} {directory : String} {version : LanguageVersion} {w w' : Workspace}
  {id : Nat} {files : List String} {tickets : List (String × Except Failure Ticket)}

/-- A file cannot be loaded and nothing happens, or there is one more request. -/
theorem request_cases (disk : Disk) (directory : String) (version : LanguageVersion)
    (w : Workspace) (id : Nat) (path : String) :
    (∃ failure, request disk directory version w id path = (w, .error failure) ∧
      Report.ofOutcome path (.error failure) =
        fileReport disk directory w.settings version path) ∨
    ∃ content, request disk directory version w id path =
        ((w.add (Disk.document id (Disk.absolute directory path) content)).enqueue (some id) version
          true) ∧
      fileReport disk directory w.settings version path = Report.ofOutcome path
        (.ok ⟨.project (NatMap.empty.insert 0
          (Lane.fileRecord content (w.settings.options version true))), 1⟩) := by
  unfold request fileReport
  rw [Disk.load_eq]
  cases disk (Disk.absolute directory path) with
  | error e => exact .inl ⟨_, rfl, rfl⟩
  | ok content =>
    by_cases hsize : Disk.sizeLimit < content.size
    · simp only [hsize, if_true]
      exact .inl ⟨_, rfl, rfl⟩
    · simp only [hsize, if_false]
      exact .inr ⟨content, rfl, (ofOutcome_fileRecord _ _ _).symm⟩

theorem add_enqueue (w : Workspace) (id : Nat) (path : String) (content : ByteArray)
    (version : LanguageVersion) :
    (w.add (Disk.document id path content)).enqueue (some id) version true =
      ({ w with
          lanes := (w.add (Disk.document id path content)).lanes.insert id
            (Lane.ofFile id path content (w.settings.options version true))
          count := w.count + 1 }, .ok ⟨id, 1⟩) := by
  have hl : (w.add (Disk.document id path content)).lanes.get? id =
      some (.ofDocument (Disk.document id path content)) := NatMap.get?_insert_self _ _ _
  exact Workspace.enqueue_of_get? hl version

/-- What a request leaves of the other documents. -/
theorem get?_request_of_ne {k : Nat} (hk : k ≠ id) (path : String) :
    (request disk directory version w id path).1.lanes.get? k = w.lanes.get? k := by
  rcases request_cases disk directory version w id path with ⟨_, heq, -⟩ | ⟨content, heq, -⟩
  · rw [heq]
  · rw [heq, add_enqueue, NatMap.get?_insert_of_ne hk]
    exact NatMap.get?_insert_of_ne hk _ _

theorem settings_request (path : String) :
    (request disk directory version w id path).1.settings = w.settings := by
  rcases request_cases disk directory version w id path with ⟨_, heq, -⟩ | ⟨content, heq, -⟩
  · rw [heq]
  · rw [heq, add_enqueue]

/-- A document that has been loaded can come about from one without parts, which is given the
content then. -/
theorem run_add {rule : Nat → TouchRule} (hrule : ∀ d t, rule id d t)
    (hfree : w.lanes.get? id = none) (path : String) (content : ByteArray) :
    Workspace.Run .plain rule w (w.add (Disk.document id path content)) := by
  let unread : Document :=
    ⟨id, some (Disk.uri path), some path, .project (.buffers .empty) .fresh⟩
  have hnew : unread.IsNew := ⟨rfl, rfl⟩
  have hdocument : (w.add unread).document? id = some unread :=
    congrArg (Option.map Lane.document) (NatMap.get?_insert_self w.lanes id (.ofDocument unread))
  have hadd : (w.add unread).mapDocument id (Touch.apply · (.edit (.set 0 content))) =
      w.add (Disk.document id path content) := by
    refine congrArg (fun lanes => { w with lanes }) (NatMap.ext_of_get? ?_)
    intro k
    show NatMap.get? (NatMap.modify (NatMap.insert w.lanes id _) id _) k =
      NatMap.get? (NatMap.insert w.lanes id _) k
    rw [NatMap.get?_modify, NatMap.get?_insert, NatMap.get?_insert]
    by_cases hk : k = id
    · rw [if_pos hk, if_pos hk, if_pos hk]
      rfl
    · rw [if_neg hk, if_neg hk, if_neg hk]
  rw [← hadd]
  exact .tail (.single (.add hnew hfree)) (.touch _ hdocument (hrule _ _))

theorem run_request {rule : Nat → TouchRule} (hrule : ∀ d t, rule id d t)
    (hfree : w.lanes.get? id = none) (path : String) :
    Workspace.Run .plain rule w (request disk directory version w id path).1 := by
  rcases request_cases disk directory version w id path with ⟨_, heq, -⟩ | ⟨content, heq, -⟩
  · rw [heq]
  · rw [heq]
    exact (run_add hrule hfree _ content).tail (.enqueue (some id) version true)

/-- Numbers from the given one on are free. -/
def Free (w : Workspace) (id : Nat) : Prop :=
  ∀ k, id ≤ k → w.lanes.get? k = none

theorem Free.advance {t : Ticket} (h : Free w id) (hadvance : w.advance .plain t = some w') :
    Free w' id := by
  intro k hk
  obtain ⟨l, l', -, hl, -, -, hlanes, -⟩ := Workspace.advance_eq_some hadvance
  have hne : k ≠ t.document := by
    rintro rfl
    cases hl.symm.trans (h t.document hk)
  rw [hlanes, NatMap.get?_insert_of_ne hne]
  exact h k hk

theorem Free.request (h : Free w id) (path : String) :
    Free (request disk directory version w id path).1 (id + 1) := by
  intro k hk
  rw [get?_request_of_ne (by omega)]
  exact h k (by omega)

theorem Serves.run {rule : Nat → TouchRule} (hrule : ∀ id d t, rule id d t)
    (h : Serves disk directory version w id files w' tickets) (hfree : Free w id) :
    Workspace.Run .plain rule w w' := by
  induction h with
  | done w id => exact .refl
  | advance hadvance _ ih => exact .head (.advance hadvance) (ih (hfree.advance hadvance))
  | @load w w' id path files tickets _ ih =>
    exact (run_request (hrule id) (hfree id (Nat.le_refl id)) path).trans (ih (hfree.request path))

/-- In the lane of a document that has been loaded, requests take steps and nothing else happens. -/
theorem Serves.advances (h : Serves disk directory version w id files w' tickets) {k : Nat}
    (hk : k < id) {l : Lane} (hl : w.lanes.get? k = some l) :
    ∃ l', w'.lanes.get? k = some l' ∧ Lane.Advances .plain l l' := by
  induction h generalizing l with
  | done w id => exact ⟨l, hl, .refl⟩
  | @advance w w₁ w'' id t files tickets hadvance _ ih =>
    obtain ⟨a, b, -, ha, -, hb, hlanes, -⟩ := Workspace.advance_eq_some hadvance
    by_cases heq : k = t.document
    · subst heq
      obtain rfl := Option.some.inj (ha.symm.trans hl)
      have hb' : w₁.lanes.get? t.document = some b := by
        rw [hlanes, NatMap.get?_insert_self]
      obtain ⟨l', hl', hadvances⟩ := ih hk hb'
      exact ⟨l', hl', .head ⟨_, hb⟩ hadvances⟩
    · refine ih hk ?_
      rw [hlanes, NatMap.get?_insert_of_ne heq]
      exact hl
  | @load w w' id path files tickets _ ih =>
    refine ih (by omega) ?_
    rw [get?_request_of_ne (by omega)]
    exact hl

/-- The workspace has come about from an empty one. -/
abbrev Comes (w : Workspace) : Prop :=
  Workspace.Reachable .plain (fun _ _ _ => True) w

/-- When nothing is in flight any more, every file has its report, and that does not depend on the
other files. -/
theorem Serves.reports_eq (h : Serves disk directory version w id files w' tickets)
    (hcomes : Comes w) (hfree : Free w id) (hzero : w'.count = 0) :
    tickets.map (fun t => Report.ofOutcome t.1 (outcome w' t.2)) =
      files.map (fileReport disk directory w.settings version) := by
  induction h with
  | done w id => rfl
  | @advance w w₁ w'' id t files tickets hadvance _ ih =>
    have hsettings : w₁.settings = w.settings := by
      obtain ⟨l, l', r, -, -, -, rfl⟩ := Workspace.advance_eq_some_iff.1 hadvance
      rfl
    rw [ih (hcomes.run (.single (.advance hadvance))) (hfree.advance hadvance) hzero, hsettings]
  | @load w w' id path files tickets hrest ih =>
    have hrun : Workspace.Run .plain (fun _ _ _ => True) w
        (request disk directory version w id path).1 :=
      run_request (fun _ _ => trivial) (hfree id (Nat.le_refl id)) path
    have hfree' : Free (request disk directory version w id path).1 (id + 1) := hfree.request path
    have hcomes' := hcomes.run (hrun.trans (hrest.run (fun _ _ _ => trivial) hfree'))
    rw [List.map_cons, List.map_cons, ih (hcomes.run hrun) hfree' hzero, settings_request]
    refine congrArg (· :: _) ?_
    rcases request_cases disk directory version w id path with
      ⟨_, heq, hreport⟩ | ⟨content, heq, hreport⟩
    · rw [heq]
      exact hreport
    · have hlane : (request disk directory version w id path).1.lanes.get? id =
          some (Lane.ofFile id (Disk.absolute directory path) content
            (w.settings.options version true)) := by
        rw [heq, add_enqueue, NatMap.get?_insert_self]
      obtain ⟨l, hl, hadvances⟩ := hrest.advances (Nat.lt_succ_self id) hlane
      have hout := Lane.outcome?_ofFile hadvances
        fun r hr => hcomes'.finished_of_count_eq_zero hzero hl hr
      rw [heq, add_enqueue, hreport]
      rw [outcome, Workspace.outcome?_of_get? hl, hout, Option.getD_some]

/-! ## All files first, and then all requests -/

theorem serves_requestAll (disk : Disk) (directory : String) (version : LanguageVersion)
    (w : Workspace) (id : Nat) (files : List String) :
    Serves disk directory version w id files (requestAll disk directory version w id files).1
      (requestAll disk directory version w id files).2 := by
  induction files generalizing w id with
  | nil => exact .done w id
  | cons path files ih => exact .load (ih _ (id + 1))

/-- Requests may take further steps at the end. -/
theorem Serves.play {w'' : Workspace} (h : Serves disk directory version w id files w' tickets)
    {order : List Ticket} (hplay : w'.play .plain order = some w'') :
    Serves disk directory version w id files w'' tickets := by
  induction h with
  | done w id =>
    induction order generalizing w with
    | nil =>
      obtain rfl := Option.some.inj hplay
      exact .done w id
    | cons t order ih =>
      obtain ⟨v, hv, hrest⟩ := Workspace.play_cons_eq_some.1 hplay
      exact .advance hv (ih v hrest)
  | advance hadvance _ ih => exact .advance hadvance (ih hplay)
  | load _ ih => exact .load (ih hplay)

/-- No request has started. -/
def AllQueued (w : Workspace) : Prop :=
  ∀ id l, w.lanes.get? id = some l → ∀ r ∈ l.requests, r.stage = .queued

theorem AllQueued.request (h : AllQueued w) (path : String) :
    AllQueued (request disk directory version w id path).1 := by
  intro k l hl r hr
  rcases request_cases disk directory version w id path with ⟨_, heq, -⟩ | ⟨content, heq, -⟩
  · rw [heq] at hl
    exact h k l hl r hr
  · by_cases hk : k = id
    · rw [heq, add_enqueue, hk, NatMap.get?_insert_self] at hl
      obtain rfl := Option.some.inj hl
      rw [List.mem_singleton.1 hr]
    · rw [get?_request_of_ne hk] at hl
      exact h k l hl r hr

theorem AllQueued.requestAll (h : AllQueued w) (files : List String) :
    AllQueued (requestAll disk directory version w id files).1 := by
  induction files generalizing w id with
  | nil => exact h
  | cons path files ih => exact ih (h.request path)

theorem AllQueued.isUnderWay (h : AllQueued w) : w.isUnderWay = false := by
  rw [Workspace.isUnderWay_eq_false_iff]
  intro id l hl r hr
  rw [h id l hl r hr]
  rfl

theorem free_ofSettings (settings : Settings) (id : Nat) : Free (.ofSettings settings) id :=
  fun _ _ => rfl

theorem comes_ofSettings (settings : Settings) : Comes (.ofSettings settings) :=
  ⟨settings, .refl⟩

/-- A run serves the files, and nothing is in flight at its end. -/
theorem serves_drain (disk : Disk) (directory : String) (version : LanguageVersion)
    (settings : Settings) (files : List String) :
    let all := requestAll disk directory version (.ofSettings settings) 1 files
    Serves disk directory version (.ofSettings settings) 1 files (all.1.drain .plain) all.2 ∧
      (all.1.drain .plain).count = 0 := by
  intro all
  have hserves : Serves disk directory version (.ofSettings settings) 1 files all.1 all.2 :=
    serves_requestAll disk directory version (.ofSettings settings) 1 files
  have hcomes : Comes all.1 := (comes_ofSettings settings).run
    (hserves.run (fun _ _ _ => trivial) (free_ofSettings settings 1))
  have hqueued : AllQueued (.ofSettings settings) := fun _ _ hl => nomatch hl
  obtain ⟨order, hplayed, hrest⟩ := hcomes.drains_drain (hqueued.requestAll files).isUnderWay
  refine ⟨hserves.play hplayed, ?_⟩
  have hcomes' := hcomes.run (Workspace.run_play hplayed)
  rw [hcomes'.count_eq_zero_iff]
  exact fun id l hl r hr => hcomes'.finished_of_atRest hrest hl hr

end Serves

/-- The reports of a run are those on its files, one by one. -/
theorem reports_eq (disk : Disk) (directory : String) (settings : Settings)
    (version : LanguageVersion) (files : List String) :
    reports disk directory settings version files =
      files.map (fileReport disk directory settings version) := by
  obtain ⟨hserves, hzero⟩ := serves_drain disk directory version settings files
  exact hserves.reports_eq (comes_ofSettings settings) (free_ofSettings settings 1) hzero

theorem invoke_eq {disk : Disk} {i : Invocation} {s : Settings}
    (hsettings : settings disk i.config = .ok s) (directory : String) :
    invoke disk directory i =
      let reports := i.files.map (fileReport disk directory s (i.version.getD s.version))
      .ok ⟨if reports.all Report.isSuccess then 0 else 1, reports.map Report.toLine, none⟩ := by
  unfold invoke
  rw [hsettings, ← reports_eq]
  rfl

theorem Report.isSuccess_iff (r : Report) :
    r.isSuccess = true ↔ r.error = none ∧ ∀ d ∈ r.diagnostics, d.severity.code ≠ 1 := by
  have hcode : ∀ severity : Severity, severity = .error ↔ severity.code = 1 := by
    rintro ⟨code⟩
    exact ⟨fun h => congrArg Severity.code h, fun h => congrArg Severity.mk h⟩
  simp [isSuccess, hcode]

/-- What a run gives for which the settings can be read. -/
theorem run_eq {disk : Disk} {arguments : List String} {i : Invocation} {s : Settings}
    (harguments : Request.ofArguments arguments = .run i)
    (hsettings : settings disk i.config = .ok s) (directory : String) :
    run disk directory arguments =
      let reports := i.files.map (fileReport disk directory s (i.version.getD s.version))
      ⟨if reports.all Report.isSuccess then 0 else 1, reports.map Report.toLine, none⟩ := by
  unfold run
  rw [harguments]
  dsimp only
  rw [invoke_eq hsettings]

/-- A run for which the settings can be read prints one report for each file, in the order of the
files, and complains of nothing. The report says of the file that it cannot be loaded, or what the
parse of it gives; it is printed as one line, which is read back as the report, so that the lines
tell the reports. The line for a file is the one that a run of the same options on that file alone
prints; there are arguments for such a run among those of the run itself. The run ends with 0 if no
report has an error or a diagnostic of severity 1, and with 1 otherwise. It is no matter in which
order the requests take their steps, nor whether they begin to while files are still being loaded:
once nothing is in flight, the outcomes make these very reports. -/
theorem run_compositional {disk : Disk} {arguments : List String} {i : Invocation} {s : Settings}
    (harguments : Request.ofArguments arguments = .run i)
    (hsettings : settings disk i.config = .ok s) (directory : String) :
    let reports := i.files.map (fileReport disk directory s (i.version.getD s.version))
    let result := run disk directory arguments
    result.lines = reports.map Report.toLine ∧ result.complaint = none ∧
      reports.map Report.path = i.files ∧
      (∀ told : List Report, told.map Report.toLine = result.lines → told = reports) ∧
      (∀ report ∈ reports,
        Json.parse? report.toLine.toList = some report.toJson ∧ '\n' ∉ report.toLine.toList) ∧
      (∀ report ∈ reports,
        (∃ alone : List String, alone.Sublist arguments ∧
          Request.ofArguments alone = .run { i with files := [report.path] }) ∧
        ∀ alone, Request.ofArguments alone = .run { i with files := [report.path] } →
          (run disk directory alone).lines = [report.toLine]) ∧
      (result.code = 0 ↔
        ∀ report ∈ reports, report.error = none ∧ ∀ d ∈ report.diagnostics, d.severity.code ≠ 1) ∧
      (result.code = 0 ∨ result.code = 1) ∧
      ∀ w tickets, Serves disk directory (i.version.getD s.version) (.ofSettings s) 1 i.files w
        tickets → w.count = 0 →
        tickets.map (fun t => Report.ofOutcome t.1 (outcome w t.2)) = reports := by
  intro reports result
  have hresult : result =
      ⟨if reports.all Report.isSuccess then 0 else 1, reports.map Report.toLine, none⟩ :=
    run_eq harguments hsettings directory
  rw [hresult]
  refine ⟨rfl, rfl, ?_, ?_, ?_, ?_, ?_, ?_, ?_⟩
  · rw [List.map_map]
    exact List.map_id'' (path_fileReport disk directory s _) i.files
  · exact fun told htold => List.map_injective_iff.2 Report.toLine_injective htold
  · exact fun report _ => ⟨report.parse?_toLine, report.lineFeed_not_mem_toLine⟩
  · intro report hreport
    obtain ⟨path, hpath, rfl⟩ := List.mem_map.1 hreport
    rw [path_fileReport]
    refine ⟨Request.exists_alone harguments hpath, ?_⟩
    intro alone halone
    rw [run_eq halone hsettings]
    rfl
  · dsimp only
    simp only [← Report.isSuccess_iff, ← List.all_eq_true]
    split <;> simp [*]
  · dsimp only
    split
    · exact .inl rfl
    · exact .inr rfl
  · intro w tickets hserves hzero
    exact hserves.reports_eq (comes_ofSettings s) (free_ofSettings s 1) hzero

/-- A file with a header that has no block, and settings for an old language version. -/
def twoFiles : Disk :=
  (Disk.Files.below ["srv"]
    [("a.py", "if x:\n".toUTF8),
      ("c.json", "\x7b\"language_version\": \"3.4\"\x7d".toUTF8)]).toDisk

/-- A file is named twice, and another one is missing. -/
def repeating : Invocation := ⟨some "c.json", none, none, ["a.py", "none.py", "a.py"]⟩

/-- The settings in the file of settings. -/
def oldSettings : Settings := { Settings.standard with version := ⟨3, 4⟩ }

/-- What is printed for the file with the header. -/
def headerLine : String :=
  "\x7b\"path\":\"a.py\",\"version\":1,\"statements\":1,\"diagnostics\":[" ++
    "\x7b\"range\":\x7b\"start\":\x7b\"line\":0,\"character\":0\x7d," ++
    "\"end\":\x7b\"line\":0,\"character\":5\x7d\x7d,\"severity\":1,\"source\":\"Python\"," ++
    "\"message\":\"expected an indented block\"\x7d]\x7d"

/-- What is printed for the file that is missing. -/
def missingLine : String :=
  "\x7b\"path\":\"none.py\",\"statements\":0,\"diagnostics\":[]," ++
    "\"error\":\"I/O error: no such file or directory\"\x7d"

theorem settings_repeating : settings twoFiles repeating.config = .ok oldSettings := by
  have hsettings : (settings twoFiles repeating.config).toOption = some oldSettings := by
    decide +kernel
  cases hcase : settings twoFiles repeating.config with
  | error failure =>
    rw [hcase] at hsettings
    cases hsettings
  | ok s =>
    rw [hcase] at hsettings
    exact congrArg Except.ok (Option.some.inj hsettings)

theorem fileReport_header : fileReport twoFiles "/srv" oldSettings ⟨3, 4⟩ "a.py" =
    ⟨"a.py", some 1, 1, [⟨⟨⟨0, 0⟩, ⟨0, 5⟩⟩, .error, .python, "expected an indented block"⟩],
      none⟩ := by
  let content := "if x:\n".toUTF8
  let options := oldSettings.options ⟨3, 4⟩ true
  let events := Layout.scan (Text.lines (decodeText content))
  have hcontent : twoFiles (Disk.absolute "/srv" "a.py") = .ok content := rfl
  have hsize : ¬ Disk.sizeLimit < content.size := by decide +kernel
  have hstatements : (parse content options).outline.statements.length = 1 := by decide +kernel
  have hreported : events.flatMap (Layout.Event.diagnostics options (Layout.finder options)) =
      [⟨⟨⟨0, 0⟩, ⟨0, 5⟩⟩, .error, .python, "expected an indented block"⟩] := by decide +kernel
  have hdiagnostics : (parse content options).diagnostics =
      [⟨⟨⟨0, 0⟩, ⟨0, 5⟩⟩, .error, .python, "expected an indented block"⟩] := by
    show List.mergeSort _ _ = _
    rw [hreported, List.mergeSort_singleton]
  rw [fileReport, hcontent]
  dsimp only
  rw [if_neg hsize, hstatements, hdiagnostics]

theorem repeating_compositional :
    Request.ofArguments ["a.py", "--config", "c.json", "none.py", "a.py"] = .run repeating ∧
      settings twoFiles repeating.config = .ok oldSettings ∧
      (run twoFiles "/srv" ["a.py", "--config", "c.json", "none.py", "a.py"]).lines =
        [headerLine, missingLine, headerLine] ∧
      (run twoFiles "/srv" ["a.py", "--config", "c.json", "none.py", "a.py"]).code = 1 ∧
      (run twoFiles "/srv" ["--config", "c.json", "a.py"]).lines = [headerLine] ∧
      (run twoFiles "/srv" ["--config", "c.json", "none.py"]).lines = [missingLine] := by
  have harguments : Request.ofArguments ["a.py", "--config", "c.json", "none.py", "a.py"] =
      .run repeating := by decide +kernel
  have hheader : (fileReport twoFiles "/srv" oldSettings ⟨3, 4⟩ "a.py").toLine = headerLine := by
    rw [fileReport_header]
    decide +kernel
  have hmissing : (fileReport twoFiles "/srv" oldSettings ⟨3, 4⟩ "none.py").toLine =
      missingLine := by decide +kernel
  obtain ⟨hlines, -, -, -, -, halone, hzero, hcode, -⟩ :=
    run_compositional harguments settings_repeating "/srv"
  refine ⟨harguments, settings_repeating, ?_, ?_, ?_, ?_⟩
  · rw [hlines, ← hheader, ← hmissing]
    rfl
  · refine hcode.resolve_left fun h => ?_
    have hreport := (hzero.1 h (fileReport twoFiles "/srv" oldSettings ⟨3, 4⟩ "a.py") (.head _)).2
    rw [fileReport_header] at hreport
    exact hreport _ (.head _) rfl
  · have hfile := halone (fileReport twoFiles "/srv" oldSettings ⟨3, 4⟩ "a.py") (.head _)
    rw [path_fileReport] at hfile
    rw [← hheader]
    exact hfile.2 _ (by decide +kernel)
  · have hfile := halone (fileReport twoFiles "/srv" oldSettings ⟨3, 4⟩ "none.py")
      (.tail _ (.head _))
    rw [path_fileReport] at hfile
    rw [← hmissing]
    exact hfile.2 _ (by decide +kernel)

end CommandLine

end Reparse
