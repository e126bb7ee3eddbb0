import Reparse.Failure
import Reparse.Receipt

/-!
Requests for a parse, and the stages through which each of them goes. A request starts, does its
work, concludes, delivers its outcome, signals its completion to the request behind it, and is
finished only then.
-/

namespace Reparse

/-- How a request ends. -/
abbrev Outcome := Except Failure Receipt

/-- The work of a request that has started. -/
inductive Job where
  /-- The parts that are still to be read, in this order; the receipt that was installed at the
  start; and the records gathered so far. -/
  | project (todo : List Nat) (last : Option Receipt) (records : NatMap Record)
  | external

/-- How far a request has come. -/
inductive Stage where
  | queued
  | running (job : Job)
  | concluded (outcome : Outcome)
  | delivered
  | signalled
  | finished

namespace Stage

/-- The request has not started. -/
def isQueued : Stage → Bool
  | queued => true
  | _ => false

/-- The request has taken its last step. -/
def isFinished : Stage → Bool
  | finished => true
  | _ => false

/-- The request has signalled its completion. -/
def hasSignalled : Stage → Bool
  | signalled | finished => true
  | _ => false

/-- The request has started and has not taken its last step. -/
def isUnderWay (s : Stage) : Bool :=
  !s.isQueued && !s.isFinished

/-- The request is at its very last step. -/
def isLeaving : Stage → Bool
  | signalled => true
  | _ => false

end Stage

/-- A request for one document. Requests of a document are numbered in the order in which they are
accepted; `after` is the request that has to signal before this one may start. -/
structure Request where
  turn : Nat
  options : Options
  after : Option Nat
  stage : Stage

end Reparse
