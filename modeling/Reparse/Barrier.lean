/-!
A barrier that opens when nothing is in flight. Guards count what is in flight; a waiter that
finds the count above zero waits to be notified, and all waiters are notified, and their wakers
fire, at the moment the count falls to zero. A waiter that is polled again looks at its
notification first, and only then at the count.
-/

namespace Reparse

/-- What a waiter is doing. -/
inductive Waiter.Phase where
  /-- It has never been polled. -/
  | fresh
  | waiting (notified : Bool)
  /-- It has been ready. -/
  | done
deriving DecidableEq, Repr

/-- A waiter, and whether its waker has fired since it was last polled. -/
structure Waiter where
  phase : Waiter.Phase
  woken : Bool
deriving DecidableEq, Repr

/-- The result of polling a waiter. -/
inductive Poll where
  | pending
  | ready
  /-- It was ready before. -/
  | done
deriving DecidableEq, Repr

/-- The count, the guards that are held (by name, each once) and the waiters (by name). -/
structure Barrier where
  count : Nat
  guards : List String
  waiters : List (String × Waiter)
deriving DecidableEq, Repr

namespace Waiter

/-- The waiter when the count falls to zero. -/
def notify (w : Waiter) : Waiter :=
  match w.phase with
  | .waiting false => ⟨.waiting true, true⟩
  | _ => w

/-- Looks at the count, after registering for the next notification. -/
def look (count : Nat) : Waiter × Poll :=
  if count = 0 then (⟨.done, false⟩, .ready) else (⟨.waiting false, false⟩, .pending)

/-- Polls a waiter while the count has the given value. -/
def poll (w : Waiter) (count : Nat) : Waiter × Poll :=
  match w.phase with
  | .fresh => look count
  | .waiting true => look count
  | .waiting false => (⟨.waiting false, false⟩, .pending)
  | .done => (⟨.done, false⟩, .done)

end Waiter

namespace Barrier

/-- Nothing is in flight and nobody waits. -/
def idle : Barrier := ⟨0, [], []⟩

/-- One more is in flight. -/
def increment (b : Barrier) : Barrier :=
  { b with count := b.count + 1 }

/-- One less is in flight. If it was the last one, the waiters are notified. -/
def decrement (b : Barrier) : Barrier :=
  { b with
    count := b.count - 1
    waiters := if b.count = 1 then b.waiters.map fun w => (w.1, w.2.notify) else b.waiters }

/-- Holds a guard under a name. A guard that is held under the name already is dropped, after the
new one is taken. -/
def enter (b : Barrier) (name : String) : Barrier :=
  if b.guards.contains name then b.increment.decrement
  else { b.increment with guards := name :: b.guards }

/-- Drops the guard held under a name, if there is one. -/
def leave (b : Barrier) (name : String) : Barrier × Bool :=
  if b.guards.contains name then
    ({ b.decrement with guards := b.guards.filter (· != name) }, true)
  else (b, false)

/-- Makes a waiter under a name. -/
def wait (b : Barrier) (name : String) : Barrier :=
  { b with waiters := (name, ⟨.fresh, false⟩) :: b.waiters.filter (·.1 != name) }

/-- Polls the waiter under a name, if there is one. -/
def poll? (b : Barrier) (name : String) : Option (Barrier × Poll) :=
  (b.waiters.lookup name).map fun w =>
    let (w, result) := w.poll b.count
    ({ b with waiters := (name, w) :: b.waiters.filter (·.1 != name) }, result)

/-- Whether waiting ends at all while nothing else happens. -/
def opensNow (b : Barrier) : Bool :=
  (Waiter.look b.count).2 == .ready

/-- The names of the waiters whose wakers have fired since they were last polled, in order. -/
def woken (b : Barrier) : List String :=
  ((b.waiters.filter (·.2.woken)).map Prod.fst).mergeSort

end Barrier

end Reparse
