import Reparse.Failure

/-!
What reading a part of a document can give, and scripts of such readings. A script gives its
readings one after the other and repeats its last one for ever; an empty script gives nothing.
-/

namespace Reparse

/-- What reading a part gives. -/
inductive Reading where
  | content (bytes : ByteArray) (version : Int)
  | unavailable
  /-- The system refuses. -/
  | failed (error : IoError)
  /-- The reader breaks off. -/
  | panicked (text : String)

/-- The readings that a part is going to give. -/
structure Script where
  readings : List Reading

/-- The next reading, and the script after it. -/
def Script.next (s : Script) : Reading × Script :=
  match s.readings with
  | [] => (.unavailable, s)
  | [r] => (r, s)
  | r :: rest => (r, ⟨rest⟩)

end Reparse
