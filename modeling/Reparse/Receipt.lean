import Reparse.NatMap
import Reparse.Parse

/-!
Receipts. A receipt says of an installed outline which version of which part it came from, with
everything that was read off each part. A part that has nothing newer than its record need not be
parsed again; a part whose version is negative has no known version and is always parsed.
-/

namespace Reparse

/-- One parse of one part. Two records of a document with the same turn and part are the same
record: `turn` is that of the request that parsed it. -/
structure Record where
  version : Int
  outline : Outline
  diagnostics : List Diagnostic
  turn : Nat
deriving DecidableEq, Repr

/-- What a receipt covers: the parts of a document of the project, or the version of a document
outside. -/
inductive Receipt.Scope where
  | project (records : NatMap Record)
  | external (version : Int)

/-- The receipt of a successful request. `turn` is that of the request. -/
structure Receipt where
  scope : Receipt.Scope
  turn : Nat

namespace Receipt

/-- The receipt of nothing. -/
def empty : Receipt := ⟨.project .empty, 0⟩

/-- The records of the parts. -/
def records (r : Receipt) : NatMap Record :=
  match r.scope with
  | .project records => records
  | .external _ => .empty

def isExternal (r : Receipt) : Bool :=
  match r.scope with
  | .project _ => false
  | .external _ => true

/-- The greatest of the versions. -/
def newest : List Int → Option Int
  | [] => none
  | v :: vs => some (vs.foldl max v)

/-- The version of the document outside, or the newest version of a part. -/
def version? (r : Receipt) : Option Int :=
  match r.scope with
  | .project records => newest (records.values.map Record.version)
  | .external version => some version

def get? (r : Receipt) (part : Nat) : Option Record :=
  r.records.get? part

/-- The record of a part, if content at the given version has nothing new to offer. -/
def reusable? (r : Receipt) (part : Nat) (version : Int) : Option Record :=
  if version < 0 then none else (r.get? part).filter (version ≤ ·.version)

/-- The part has been edited past what the receipt covers. -/
def isStale (r : Receipt) (part : Nat) (version : Int) : Bool :=
  (r.reusable? part version).isNone

/-- The reports on all parts, in the order of the parts. -/
def diagnostics (r : Receipt) : List Diagnostic :=
  r.records.values.flatMap Record.diagnostics

/-- The outline of the parts. That of a single part is its own; those of several parts are merged
in the order of the parts. Without parts there is none. -/
def outline? (r : Receipt) : Option Outline :=
  match r.records.values with
  | [] => none
  | [record] => some record.outline
  | records => some (.merge (records.map Record.outline))

theorem reusable?_eq_some_iff {r : Receipt} {part : Nat} {version : Int} {record : Record} :
    r.reusable? part version = some record ↔
      0 ≤ version ∧ r.get? part = some record ∧ version ≤ record.version := by
  rw [reusable?]
  split
  · rename_i h
    simp only [reduceCtorEq, false_iff]
    omega
  · rename_i h
    simp only [Option.filter_eq_some_iff, decide_eq_true_eq]
    exact ⟨fun ⟨a, b⟩ => ⟨by omega, a, b⟩, fun ⟨_, a, b⟩ => ⟨a, b⟩⟩

end Receipt

end Reparse
