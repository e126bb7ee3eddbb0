import Reparse.Disk

/-!
A disk that holds a number of files and nothing else. A path is followed name by name from the
root, or from the working directory if it does not begin with a slash. Whatever follows a slash is
looked for in a directory, so a slash or a dot behind the name of a file leads nowhere. The
directories are the working directory and all that lie on the way to it or to a file.
-/

namespace Reparse.Disk

/-- Files, each under the names on the way to it from the root, and the names on the way to the
working directory. -/
structure Files where
  working : List String
  entries : List (List String × ByteArray)

namespace Files

/-- The files with the given paths below the working directory. -/
def below (working : List String) (files : List (String × ByteArray)) : Files :=
  ⟨working, files.map fun f => (working ++ components f.1, f.2)⟩

/-- The content of the file at the end of the names. -/
def content? (fs : Files) (names : List String) : Option ByteArray :=
  fs.entries.lookup names

/-- The names lead to a file or a directory. -/
def exist (fs : Files) (names : List String) : Bool :=
  names.isPrefixOf fs.working || fs.entries.any fun e => names.isPrefixOf e.1

/-- Follows names from a place on. The directory above the root is the root. -/
def follow (fs : Files) (place : List String) : List String → Except IoError (List String)
  | [] => .ok place
  | name :: rest =>
    if (fs.content? place).isSome then .error ⟨.other, "not a directory"⟩
    else if name = "" ∨ name = "." then fs.follow place rest
    else if name = ".." then fs.follow place.dropLast rest
    else if fs.exist (place ++ [name]) then fs.follow (place ++ [name]) rest
    else .error ⟨.notFound, "no such file or directory"⟩

/-- The disk that holds the files. -/
def toDisk (fs : Files) : Disk := fun path => do
  let start := if path.toList.head? == some '/' then [] else fs.working
  let place ← fs.follow start ((path.toList.splitOn '/').map String.ofList)
  match fs.content? place with
  | some content => return content
  | none => throw ⟨.isADirectory, "is a directory"⟩

end Files

end Reparse.Disk
