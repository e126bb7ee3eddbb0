import Reparse.CommandLine.Run

/-!
The program. It reads the files that its arguments name, runs the command line on what it has
read, and prints the result.
-/

namespace Reparse

/-- A system error, as the library sees it. -/
def ioError (e : IO.Error) : IoError where
  kind := match e with
    | .noFileOrDirectory .. => .notFound
    | .inappropriateType .. => .isADirectory
    | _ => .other
  text := toString e

/-- What reading a file gives. -/
def readEntry (path : String) : IO (String × Except IoError ByteArray) := do
  try
    return (path, .ok (← IO.FS.readBinFile path))
  catch e =>
    return (path, .error (ioError e))

/-- The files that the arguments name. -/
def namedFiles (directory : String) (arguments : List String) : List String :=
  match CommandLine.Request.ofArguments arguments with
  | .run i => i.config.toList ++ i.files.map (Disk.absolute directory)
  | _ => []

end Reparse

open Reparse in
def main (arguments : List String) : IO UInt32 := do
  let directory := (← IO.currentDir).toString
  let entries ← (namedFiles directory arguments).mapM readEntry
  let disk : Disk := fun path =>
    (entries.lookup path).getD (.error ⟨.notFound, "no such file or directory"⟩)
  let result := CommandLine.run disk directory arguments
  for line in result.lines do
    IO.println line
  for complaint in result.complaint do
    IO.eprintln s!"error: {complaint}"
  return result.code
