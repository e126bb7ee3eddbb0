import Reparse.NatMap

/-!
The parts of a document that is edited in memory. Every part has a version, and the highest version
issued for an index is kept even when its part is removed, so a part that is added again
goes on above it. A part may be listed and yet have no content.
-/

namespace Reparse

/-- The highest version that can be issued. -/
def maxVersion : Int := 2147483647

/-- The version after a given one; the highest version is issued again and again. -/
def nextVersion (v : Int) : Int :=
  min (v + 1) maxVersion

/-- The content of a part, if it is available, and its version. -/
structure Buffer where
  content : Option ByteArray
  version : Int

/-- The parts of a document, and the highest version issued for every index. -/
structure Buffers where
  parts : NatMap Buffer
  issued : NatMap Int

namespace Buffers

/-- No parts. -/
def empty : Buffers := ⟨.empty, .empty⟩

/-- The highest version issued for an index; zero if none has been. -/
def lastIssued (b : Buffers) (part : Nat) : Int :=
  (b.issued.get? part).getD 0

/-- Replaces the content of a part, under the next version. -/
def set (b : Buffers) (part : Nat) (content : ByteArray) : Buffers × Int :=
  let version := nextVersion (b.lastIssued part)
  (⟨b.parts.insert part ⟨some content, version⟩, b.issued.insert part version⟩, version)

/-- Replaces the content of a part, under a version given from outside. A negative version is no
known version, and is not counted as issued. -/
def setVersion (b : Buffers) (part : Nat) (content : ByteArray) (version : Int) : Buffers where
  parts := b.parts.insert part ⟨some content, version⟩
  issued :=
    if version < 0 then b.issued
    else b.issued.insert part (max (b.lastIssued part) version)

/-- Keeps a part listed without its content. -/
def markUnavailable (b : Buffers) (part : Nat) : Buffers :=
  { b with parts := b.parts.modify part fun p => { p with content := none } }

/-- Removes a part. The versions issued for its index stay issued. -/
def remove (b : Buffers) (part : Nat) : Buffers × Bool :=
  ({ b with parts := b.parts.erase part }, b.parts.contains part)

/-- The version of a part. -/
def version? (b : Buffers) (part : Nat) : Option Int :=
  (b.parts.get? part).map Buffer.version

/-- The content of a part and its version, if it is available. -/
def read? (b : Buffers) (part : Nat) : Option (ByteArray × Int) :=
  (b.parts.get? part).bind fun p => p.content.map fun c => (c, p.version)

theorem read?_set (b : Buffers) (part : Nat) (content : ByteArray) :
    (b.set part content).1.read? part = some (content, (b.set part content).2) := by
  simp [set, read?]

end Buffers

end Reparse
