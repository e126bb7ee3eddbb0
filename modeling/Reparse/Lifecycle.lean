import Reparse.Receipt

/-!
The state of a document's parse: the outline that is installed, always together with its receipt,
and how many requests have begun and not ended. A request ends by installing a new pair or by
being aborted, and an end without a beginning leaves the count at zero.
-/

namespace Reparse

/-- An installed outline and the receipt it came with. -/
structure Installed where
  outline : Outline
  receipt : Receipt

/-- Where a document stands. -/
inductive Lifecycle.Phase where
  | notStarted
  | inProgress
  | hasResult
deriving DecidableEq, Repr

/-- What is installed and how many requests are pending. -/
structure Lifecycle where
  installed : Option Installed
  pending : Nat

namespace Lifecycle

/-- Nothing is installed and nothing is pending. -/
def fresh : Lifecycle := ⟨none, 0⟩

/-- A pending request hides what is installed. -/
def phase (l : Lifecycle) : Phase :=
  if 0 < l.pending then .inProgress
  else if l.installed.isSome then .hasResult
  else .notStarted

/-- A request begins. -/
def begin (l : Lifecycle) : Lifecycle :=
  { l with pending := l.pending + 1 }

/-- A request ends and leaves what is installed. -/
def abort (l : Lifecycle) : Lifecycle :=
  { l with pending := l.pending - 1 }

/-- A request ends and installs what it gives. -/
def install (l : Lifecycle) (outline : Outline) (receipt : Receipt) : Lifecycle :=
  ⟨some ⟨outline, receipt⟩, l.pending - 1⟩

/-- The receipt of what is installed. -/
def receipt? (l : Lifecycle) : Option Receipt :=
  l.installed.map Installed.receipt

@[simp]
theorem abort_begin (l : Lifecycle) : l.begin.abort = l := rfl

end Lifecycle

end Reparse
