import Reparse.Document
import Reparse.Parser
import Reparse.Schedule.Request

/-!
A document with the chain of requests for it. Every request waits for the one accepted right
before it, whatever becomes of that one. A step of a request touches nothing but its own lane, so
what happens to a document does not depend on any other document.
-/

namespace Reparse

/-- One reading of one part, and the request that read it. -/
structure ReadEntry where
  turn : Nat
  part : Nat
  reading : Reading

/-- A document and its requests, oldest first. `tail` is the request that was accepted last.
`mailbox` holds what has been delivered and `reads` what has been read, newest first; `parses`
counts the calls of the parser. -/
structure Lane where
  document : Document
  requests : List Request
  tail : Option Nat
  mailbox : List (Nat × Outcome)
  reads : List ReadEntry
  parses : Nat

namespace Lane

/-- A document for which nothing has been requested. -/
def ofDocument (document : Document) : Lane :=
  ⟨document, [], none, [], [], 0⟩

/-- The lane with another document state. -/
def mapDocument (l : Lane) (f : Document → Document) : Lane :=
  { l with document := f l.document }

/-- The request with the given number. -/
def request? (l : Lane) (turn : Nat) : Option Request :=
  l.requests.find? (·.turn == turn)

/-- What a request has delivered. -/
def outcome? (l : Lane) (turn : Nat) : Option Outcome :=
  l.mailbox.lookup turn

/-- Accepts a request: it begins at once, and becomes the tail of the chain. -/
def accept (l : Lane) (options : Options) : Lane × Nat :=
  let turn := l.requests.length + 1
  ({ l with
      document := l.document.begin
      requests := l.requests ++ [⟨turn, options, l.tail, .queued⟩]
      tail := some turn }, turn)

/-- The lane with a request at another stage. -/
def setStage (l : Lane) (turn : Nat) (stage : Stage) : Lane :=
  { l with requests := l.requests.map fun r => if r.turn = turn then { r with stage } else r }

/-- The request that another one waits for has signalled, or there is none. -/
def released (l : Lane) (after : Option Nat) : Bool :=
  match after with
  | none => true
  | some turn => (l.request? turn).any (·.stage.hasSignalled)

/-- A request concludes without a result, and leaves what is installed. -/
def fail (l : Lane) (turn : Nat) (failure : Failure) : Lane :=
  (l.mapDocument .abort).setStage turn (.concluded (.error failure))

/-- The failure of a request whose reader or parser broke off. -/
def brokenOff (l : Lane) (panic : Panic) : Failure :=
  .unexpected s!"parse of {l.document.name} panicked: {panic.message}"

/-- The failure of a request that found nothing to read. -/
def nothingToRead (l : Lane) : Failure :=
  .notFound l.document.name l.document.path

/-- A request starts: it takes the parts in descending order. -/
def start (l : Lane) (turn : Nat) : Lane :=
  match l.document.body with
  | .project store lifecycle =>
    l.setStage turn (.running (.project store.parts.reverse lifecycle.receipt? .empty))
  | .external .. => l.setStage turn (.running .external)

/-- Reads a part and notes the reading. -/
def read (l : Lane) (turn part : Nat) : Reading × Lane :=
  let (reading, document) := l.document.read part
  (reading, { l with document, reads := ⟨turn, part, reading⟩ :: l.reads })

/-- The record of content that has been read: an earlier one if that is as new, and else the
result of a parse. -/
def recordOf (parser : Parser) (r : Request) (last : Option Receipt) (part : Nat)
    (content : ByteArray) (version : Int) : Except Panic Record × Nat :=
  match last.bind (·.reusable? part version) with
  | some record => (.ok record, 0)
  | none =>
    match parser content r.options with
    | .ok out => (.ok ⟨version, out.outline, out.diagnostics, r.turn⟩, 1)
    | .error panic => (.error panic, 1)

/-- A request for a document of the project reads its next part. -/
def readPart (parser : Parser) (l : Lane) (r : Request) (part : Nat) (todo : List Nat)
    (last : Option Receipt) (records : NatMap Record) : Lane :=
  let (reading, l) := l.read r.turn part
  match reading with
  | .unavailable => l.setStage r.turn (.running (.project todo last records))
  | .failed error => l.fail r.turn (.io error)
  | .panicked text => l.fail r.turn (l.brokenOff ⟨some text⟩)
  | .content content version =>
    let (result, calls) := recordOf parser r last part content version
    let l := { l with parses := l.parses + calls }
    match result with
    | .ok record => l.setStage r.turn (.running (.project todo last (records.insert part record)))
    | .error panic => l.fail r.turn (l.brokenOff panic)

/-- A request for a document of the project has read all parts. -/
def conclude (l : Lane) (r : Request) (records : NatMap Record) : Lane :=
  let receipt : Receipt := ⟨.project records, r.turn⟩
  match receipt.outline? with
  | none => l.fail r.turn l.nothingToRead
  | some outline =>
    (l.mapDocument (·.install outline receipt)).setStage r.turn (.concluded (.ok receipt))

/-- A request for a document outside does its work. -/
def workOutside (l : Lane) (r : Request) : Lane :=
  let (reading, l) := l.read r.turn 0
  match reading with
  | .unavailable => l.fail r.turn l.nothingToRead
  | .failed error => l.fail r.turn (.io error)
  | .panicked text => l.fail r.turn (l.brokenOff ⟨some text⟩)
  | .content content version =>
    let (document, refused) := l.document.hand content version
    let l := { l with document }
    match refused with
    | some failure => l.fail r.turn failure
    | none => l.setStage r.turn (.concluded (.ok ⟨.external version, r.turn⟩))

/-- A request that has started does the next piece of its work. -/
def work (parser : Parser) (l : Lane) (r : Request) : Job → Lane
  | .project [] _ records => l.conclude r records
  | .project (part :: todo) last records => l.readPart parser r part todo last records
  | .external => l.workOutside r

/-- A request delivers its outcome. -/
def deliver (l : Lane) (turn : Nat) (outcome : Outcome) : Lane :=
  { l.setStage turn .delivered with mailbox := (turn, outcome) :: l.mailbox }

/-- The next step of a request, if it can take one. -/
def advance (parser : Parser) (l : Lane) (turn : Nat) : Option Lane :=
  match l.request? turn with
  | none => none
  | some r =>
    match r.stage with
    | .queued => if l.released r.after then some (l.start turn) else none
    | .running job => some (l.work parser r job)
    | .concluded outcome => some (l.deliver turn outcome)
    | .delivered => some (l.setStage turn .signalled)
    | .signalled => some (l.setStage turn .finished)
    | .finished => none

/-- A request that has not started is dropped. It is finished at once, and it has been cancelled. -/
def drop (l : Lane) (turn : Nat) : Lane :=
  { (l.mapDocument .abort).setStage turn .finished with
    mailbox := (turn, .error .cancelled) :: l.mailbox }

/-- The requests that have not started. -/
def queued (l : Lane) : List Nat :=
  (l.requests.filter (·.stage.isQueued)).map Request.turn

/-- The requests that have not taken their last step. -/
def unfinished (l : Lane) : List Nat :=
  (l.requests.filter (!·.stage.isFinished)).map Request.turn

/-- Drops all requests that have not started. -/
def dropQueued (l : Lane) : Lane :=
  l.queued.foldl drop l

/-- Steps that are enough for any request of the lane, if it is released: one for each part, and
those that every request takes. -/
def stepsPerRequest (l : Lane) : Nat :=
  l.document.parts.length + 5

end Lane

end Reparse
