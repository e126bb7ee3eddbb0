import Reparse.Document.Buffers
import Reparse.Document.Script
import Reparse.Lifecycle

/-!
Documents. A document of the project has parts, which can be read one by one, and a lifecycle, in
which outlines are installed. A document outside the project has a single part and parses its
content by itself; it is handed the content with a receipt, and it may refuse.
-/

namespace Reparse

/-- The parts of a document of the project: edited in memory, or following a script each. -/
inductive Store where
  | buffers (buffers : Buffers)
  | scripts (scripts : NatMap Script)

namespace Store

/-- The indices of the parts, ascending. -/
def parts : Store → List Nat
  | buffers b => b.parts.keys
  | scripts s => s.keys

/-- Reads a part. -/
def read (s : Store) (part : Nat) : Reading × Store :=
  match s with
  | buffers b =>
    (match b.read? part with
      | some (content, version) => .content content version
      | none => .unavailable, s)
  | scripts m =>
    match m.get? part with
    | some script =>
      let (reading, script) := script.next
      (reading, scripts (m.insert part script))
    | none => (.unavailable, s)

end Store

/-- What is particular to a document of the project or outside it. -/
inductive Document.Body where
  | project (store : Store) (lifecycle : Lifecycle)
  /-- `received` holds what has been handed to the document, newest first. -/
  | external (script : Script) (refusal : Option String) (received : List (ByteArray × Int))

/-- A document. -/
structure Document where
  id : Nat
  uri : Option String
  path : Option String
  body : Document.Body

namespace Document

/-- The document in words: its URI if it has one, and else its number. -/
def name (d : Document) : String :=
  d.uri.getD s!"doc#{d.id}"

def isProject (d : Document) : Bool :=
  match d.body with
  | .project .. => true
  | .external .. => false

/-- The lifecycle of a document of the project. -/
def lifecycle? (d : Document) : Option Lifecycle :=
  match d.body with
  | .project _ lifecycle => some lifecycle
  | .external .. => none

/-- The parts of a document that is edited in memory. -/
def buffers? (d : Document) : Option Buffers :=
  match d.body with
  | .project (.buffers b) _ => some b
  | _ => none

/-- The indices of the parts, ascending. -/
def parts (d : Document) : List Nat :=
  match d.body with
  | .project store _ => store.parts
  | .external .. => [0]

/-- Reads a part. A document outside has only one. -/
def read (d : Document) (part : Nat) : Reading × Document :=
  match d.body with
  | .project store lifecycle =>
    let (reading, store) := store.read part
    (reading, { d with body := .project store lifecycle })
  | .external script refusal received =>
    let (reading, script) := script.next
    (reading, { d with body := .external script refusal received })

/-- The document with another lifecycle, if it has one. -/
def mapLifecycle (d : Document) (f : Lifecycle → Lifecycle) : Document :=
  match d.body with
  | .project store lifecycle => { d with body := .project store (f lifecycle) }
  | .external .. => d

/-- A request for the document begins. -/
def begin (d : Document) : Document :=
  d.mapLifecycle .begin

/-- A request for the document ends without a result. -/
def abort (d : Document) : Document :=
  d.mapLifecycle .abort

/-- A request for the document ends with a result. -/
def install (d : Document) (outline : Outline) (receipt : Receipt) : Document :=
  d.mapLifecycle (·.install outline receipt)

/-- Hands content to a document outside, which keeps it, and may refuse it. -/
def hand (d : Document) (content : ByteArray) (version : Int) : Document × Option Failure :=
  match d.body with
  | .project .. => (d, none)
  | .external script refusal received =>
    ({ d with body := .external script refusal ((content, version) :: received) },
      refusal.map (.external d.name ·))

@[simp]
theorem abort_begin (d : Document) : d.begin.abort = d := by
  obtain ⟨id, uri, path, body⟩ := d
  cases body <;> rfl

@[simp]
theorem lifecycle?_mapLifecycle (d : Document) (f : Lifecycle → Lifecycle) :
    (d.mapLifecycle f).lifecycle? = d.lifecycle?.map f := by
  obtain ⟨id, uri, path, body⟩ := d
  cases body <;> rfl

@[simp]
theorem buffers?_mapLifecycle (d : Document) (f : Lifecycle → Lifecycle) :
    (d.mapLifecycle f).buffers? = d.buffers? := by
  obtain ⟨id, uri, path, body⟩ := d
  rcases body with ⟨_ | _, _⟩ | _ <;> rfl

@[simp]
theorem buffers?_read (d : Document) (part : Nat) : (d.read part).2.buffers? = d.buffers? := by
  obtain ⟨id, uri, path, body⟩ := d
  rcases body with ⟨_ | scripts, _⟩ | _
  · rfl
  · simp only [read, Store.read]
    split <;> rfl
  · rfl

@[simp]
theorem buffers?_hand (d : Document) (content : ByteArray) (version : Int) :
    (d.hand content version).1.buffers? = d.buffers? := by
  obtain ⟨id, uri, path, body⟩ := d
  cases body <;> rfl

theorem mapLifecycle_id (d : Document) : d.mapLifecycle (fun c => c) = d := by
  obtain ⟨id, uri, path, body⟩ := d
  cases body <;> rfl

theorem mapLifecycle_mapLifecycle (d : Document) (f g : Lifecycle → Lifecycle) :
    (d.mapLifecycle f).mapLifecycle g = d.mapLifecycle (g ∘ f) := by
  obtain ⟨id, uri, path, body⟩ := d
  cases body <;> rfl

@[simp]
theorem lifecycle?_read (d : Document) (part : Nat) :
    (d.read part).2.lifecycle? = d.lifecycle? := by
  obtain ⟨id, uri, path, body⟩ := d
  cases body <;> rfl

@[simp]
theorem lifecycle?_hand (d : Document) (content : ByteArray) (version : Int) :
    (d.hand content version).1.lifecycle? = d.lifecycle? := by
  obtain ⟨id, uri, path, body⟩ := d
  cases body <;> rfl

@[simp]
theorem parts_mapLifecycle (d : Document) (f : Lifecycle → Lifecycle) :
    (d.mapLifecycle f).parts = d.parts := by
  obtain ⟨id, uri, path, body⟩ := d
  cases body <;> rfl

/-- Reading a part leaves the parts that are listed. -/
@[simp]
theorem parts_read (d : Document) (part : Nat) : (d.read part).2.parts = d.parts := by
  obtain ⟨id, uri, path, body⟩ := d
  rcases body with ⟨_ | scripts, _⟩ | _
  · rfl
  · simp only [read, Store.read, parts]
    split
    · rename_i script hscript
      exact NatMap.keys_insert_of_get? (by rw [hscript]; rfl) _
    · rfl
  · rfl

@[simp]
theorem parts_hand (d : Document) (content : ByteArray) (version : Int) :
    (d.hand content version).1.parts = d.parts := by
  obtain ⟨id, uri, path, body⟩ := d
  cases body <;> rfl

end Document

end Reparse
