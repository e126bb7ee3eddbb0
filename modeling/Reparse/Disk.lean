import Reparse.Document
import Reparse.Failure
import Reparse.Text.Percent

/-!
Documents from files. A file becomes a document with a single part at version 1, whose URI is made
of the absolute path. A file that is too large is refused.
-/

namespace Reparse

/-- What reading each file gives. -/
abbrev Disk := String → Except IoError ByteArray

namespace Disk

/-- The largest size of a file that is loaded, in octets. -/
def sizeLimit : Nat := 10000000

/-- The names in a path, without those that mean nothing. -/
def components (path : String) : List String :=
  ((path.toList.splitOn '/').map String.ofList).filter fun name => name != "" && name != "."

/-- A path seen from a directory whose own path is absolute. A slash at its end is kept. -/
def absolute (directory path : String) : String :=
  let names := if path.toList.head? == some '/' then components path
    else components directory ++ components path
  let slash := if path.toList.getLast? == some '/' && !names.isEmpty then "/" else ""
  "/" ++ String.intercalate "/" names ++ slash

/-- The URI of a file with the given absolute path. -/
def uri (path : String) : String :=
  "file://" ++ Text.percentEncode path

/-- Loads a file under a number, given its absolute path. -/
def load (disk : Disk) (id : Nat) (path : String) : Except Failure Document :=
  match disk path with
  | .error e => .error (.io e)
  | .ok content =>
    if sizeLimit < content.size then .error (.fileTooLarge content.size sizeLimit)
    else .ok
      { id
        uri := some (uri path)
        path := some path
        body := .project (.buffers (Buffers.empty.set 0 content).1) .fresh }

end Disk

end Reparse
