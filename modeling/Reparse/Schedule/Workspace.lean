import Reparse.Schedule.Lane
import Reparse.Settings
import Reparse.Total

/-!
A workspace: documents, the requests for them, and the settings in force. Requests of one document
run one after the other in the order of their acceptance; requests of different documents do not
wait for each other. The count says how many accepted requests have not taken their last step.
-/

namespace Reparse

/-- An accepted request: the document and its number among the requests for it. -/
structure Ticket where
  document : Nat
  turn : Nat
deriving DecidableEq, Repr

/-- Documents by their numbers, the settings, and the count of unfinished requests. -/
structure Workspace where
  settings : Settings
  lanes : NatMap Lane
  count : Nat

namespace Workspace

/-- A workspace without documents. -/
def ofSettings (settings : Settings) : Workspace :=
  ⟨settings, .empty, 0⟩

/-- The workspace with one more document. -/
def add (w : Workspace) (document : Document) : Workspace :=
  { w with lanes := w.lanes.insert document.id (.ofDocument document) }

def document? (w : Workspace) (id : Nat) : Option Document :=
  (w.lanes.get? id).map Lane.document

/-- The workspace with another state of one document. -/
def mapDocument (w : Workspace) (id : Nat) (f : Document → Document) : Workspace :=
  { w with lanes := w.lanes.modify id (·.mapDocument f) }

/-- How many documents a request has ever been accepted for. -/
def tracked (w : Workspace) : Nat :=
  (w.lanes.values.filter (·.tail.isSome)).length

/-- How often the parser has been called. -/
def parses (w : Workspace) : Nat :=
  total (w.lanes.values.map Lane.parses)

/-- The workspace with other settings, whose keywords are sanitized. -/
def setSettings (w : Workspace) (settings : Settings) : Workspace :=
  { w with settings := settings.sanitize }

/-- The workspace with other keywords, which are sanitized. -/
def setTaskComments (w : Workspace) (keywords : Keywords) : Workspace :=
  { w with settings := w.settings.withTaskComments keywords }

/-- The workspace with another severity of mixed indentation. -/
def setIndentation (w : Workspace) (severity : Option Severity) : Workspace :=
  { w with settings := w.settings.withIndentation severity }

/-- Nothing can be scheduled for nobody's document. -/
def noDocument : Failure :=
  .invalidArgument "document must not be null"

/-- Nothing can be scheduled where nothing runs. -/
def noRuntime : Failure :=
  .runtimeUnavailable "nothing is running that could take the request"

/-- One more request is in flight. -/
def enter (w : Workspace) : Workspace :=
  { w with count := w.count + 1 }

/-- One request less is in flight. -/
def leave (w : Workspace) : Workspace :=
  { w with count := w.count - 1 }

/-- Requests a parse of a document. The request begins and is counted first; where there is no
runtime to take it, both are taken back. The options are those in force now, and reports
are collected for documents that have a URI. -/
def enqueue (w : Workspace) (target : Option Nat) (version : LanguageVersion) (runtime : Bool) :
    Workspace × Except Failure Ticket :=
  match target.bind fun id => (w.lanes.get? id).map (id, ·) with
  | none => (w, .error noDocument)
  | some (id, lane) =>
    if runtime then
      let options := w.settings.options version lane.document.uri.isSome
      let (lane, turn) := lane.accept options
      ({ w with lanes := w.lanes.insert id lane }.enter, .ok ⟨id, turn⟩)
    else
      let begun := (w.mapDocument id .begin).enter
      ((begun.mapDocument id .abort).leave, .error noRuntime)

/-- What a request has delivered. -/
def outcome? (w : Workspace) (t : Ticket) : Option Outcome :=
  (w.lanes.get? t.document).bind (·.outcome? t.turn)

/-- The next step of a request, if it can take one. Its last step takes it from the count. -/
def advance (parser : Parser) (w : Workspace) (t : Ticket) : Option Workspace := do
  let lane ← w.lanes.get? t.document
  let request ← lane.request? t.turn
  let next ← lane.advance parser t.turn
  let w := { w with lanes := w.lanes.insert t.document next }
  return if request.stage.isLeaving then w.leave else w

/-- Some request has started and has not taken its last step. -/
def isUnderWay (w : Workspace) : Bool :=
  w.lanes.values.any fun l => l.requests.any (·.stage.isUnderWay)

/-- The runtime goes away with the requests that have not started. No request may be under way. -/
def shutdown (w : Workspace) : Option Workspace :=
  if w.isUnderWay then none
  else
    some { w with
      lanes := w.lanes.mapValues fun _ l => l.dropQueued
      count := w.count - total (w.lanes.values.map fun l => l.queued.length) }

/-- The requests that have not taken their last step, by document and in the order of acceptance. -/
def unfinished (w : Workspace) : List Ticket :=
  w.lanes.entries.flatMap fun e => e.2.unfinished.map fun turn => ⟨e.1, turn⟩

/-- Runs a request as far as it can go. -/
def settle (parser : Parser) (w : Workspace) (t : Ticket) : Workspace :=
  let steps := ((w.lanes.get? t.document).map Lane.stepsPerRequest).getD 0
  Nat.repeat (fun w => (w.advance parser t).getD w) steps w

/-- Runs all requests to their ends. -/
def drain (parser : Parser) (w : Workspace) : Workspace :=
  w.unfinished.foldl (settle parser) w

/-- Forgets what has been read and how often the parser has been called. -/
def forgetJournal (w : Workspace) : Workspace :=
  { w with lanes := w.lanes.mapValues fun _ l => { l with reads := [], parses := 0 } }

end Workspace

end Reparse
