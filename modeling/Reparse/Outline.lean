import Reparse.Position

/-!
The outline of a document: its simple statements in order, each with its kind, its place, its
indentation and the names it binds. An outline of several parts is merged from theirs, and then
every statement carries the place of its part's outline among those merged, counted from zero.
-/

namespace Reparse

/-- What sort of statement it is. -/
inductive Statement.Kind where
  | importing
  | functionDef
  | asyncFunctionDef
  | classDef
  | decorator
  | control
  | returning
  | passing
  | assignment
  | expression
deriving DecidableEq, Repr

/-- A simple statement or the header of a compound one. -/
structure Statement where
  kind : Statement.Kind
  range : Range
  indent : Nat
  bindings : List String
  part : Nat
deriving DecidableEq, Repr

/-- The statements of one part or of several merged parts, and how many parts these are. -/
structure Outline where
  statements : List Statement
  parts : Nat
deriving DecidableEq, Repr

namespace Outline

/-- The outline of nothing. -/
def empty : Outline := ⟨[], 0⟩

/-- The outline of a single part. -/
def single (statements : List Statement) : Outline :=
  ⟨statements, 1⟩

/-- The statements of an outline, marked with the part they belong to. -/
def stamp (part : Nat) (o : Outline) : List Statement :=
  o.statements.map fun s => { s with part }

/-- The outline of several parts, one after the other. -/
def merge (os : List Outline) : Outline :=
  ⟨os.zipIdx.flatMap fun (o, i) => o.stamp i, os.length⟩

def isEmpty (o : Outline) : Bool :=
  o.statements.isEmpty

/-- All names that the statements bind, in their order. -/
def names (o : Outline) : List String :=
  o.statements.flatMap Statement.bindings

/-- The statements of one kind, in their order. -/
def ofKind (o : Outline) (kind : Statement.Kind) : List Statement :=
  o.statements.filter (·.kind == kind)

@[simp]
theorem merge_parts (os : List Outline) : (merge os).parts = os.length := rfl

theorem names_stamp (part : Nat) (o : Outline) :
    (o.stamp part).flatMap Statement.bindings = o.names := by
  simp [stamp, names, List.flatMap_map]

/-- Merging numbers the statements anew and changes nothing else, so the names are those of the
merged outlines. -/
theorem names_merge (os : List Outline) : (merge os).names = os.flatMap names := by
  suffices h : ∀ n, (os.zipIdx n).flatMap (fun p => (p.1.stamp p.2).flatMap Statement.bindings)
      = os.flatMap names by
    simpa [names, merge, List.flatMap_assoc] using h 0
  intro n
  induction os generalizing n with
  | nil => rfl
  | cons o os ih => rw [List.zipIdx_cons, List.flatMap_cons, ih, names_stamp, List.flatMap_cons]

end Outline

end Reparse
