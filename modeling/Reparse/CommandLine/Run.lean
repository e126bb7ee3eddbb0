import Reparse.CommandLine.Arguments
import Reparse.CommandLine.Report
import Reparse.Disk
import Reparse.Schedule.Workspace
import Reparse.Settings.File

/-!
Runs of the command line. Every file is loaded and a parse of it is requested; then all requests
are run, and the reports are given in the order of the files. A run ends in order if all files
are, and a misuse of the command line or settings that cannot be read end it before any file is
looked at.
-/

namespace Reparse.CommandLine

/-- How a run ends, the lines that it prints, and what it complains of. -/
structure Result where
  code : UInt32
  lines : List String
  complaint : Option String
deriving DecidableEq, Repr

/-- The name and the version of the program. -/
def versionLine : String := "parseq 0.3.0"

/-- How the program is used. -/
def helpLines : List String :=
  ["Parse Python files through the parse queue and report diagnostics",
    "",
    "Usage: parseq [OPTIONS] <FILES>...",
    "",
    "Options:",
    "      --config <FILE>        JSON configuration file",
    "      --python <X.Y>         Python language version (overrides the configuration)",
    "      --timeout-secs <SECS>  Seconds to wait for all parses to finish [default: 30]",
    "  -h, --help                 Print help",
    "  -V, --version              Print version"]

/-- The settings of a run. -/
def settings (disk : Disk) (config : Option String) : Except Failure Settings :=
  match config with
  | none => .ok .standard
  | some path =>
    match disk path with
    | .ok content => Settings.parse content
    | .error e => .error (.io e)

/-- Loads a file and requests a parse of it. -/
def request (disk : Disk) (directory : String) (version : LanguageVersion) (w : Workspace)
    (id : Nat) (path : String) : Workspace × Except Failure Ticket :=
  match disk.load id (Disk.absolute directory path) with
  | .error failure => (w, .error failure)
  | .ok document => (w.add document).enqueue (some document.id) version true

/-- Loads files and requests parses of them, the first under the number given. -/
def requestAll (disk : Disk) (directory : String) (version : LanguageVersion) (w : Workspace)
    (id : Nat) : List String → Workspace × List (String × Except Failure Ticket)
  | [] => (w, [])
  | path :: rest =>
    let (w, ticket) := request disk directory version w id path
    let (w, tickets) := requestAll disk directory version w (id + 1) rest
    (w, (path, ticket) :: tickets)

/-- The outcome of a request after all requests have been run. -/
def outcome (w : Workspace) : Except Failure Ticket → Outcome
  | .ok ticket => (w.outcome? ticket).getD (.error .cancelled)
  | .error failure => .error failure

/-- The reports on the files of a run. -/
def reports (disk : Disk) (directory : String) (settings : Settings) (version : LanguageVersion)
    (files : List String) : List Report :=
  let (w, tickets) := requestAll disk directory version (.ofSettings settings) 1 files
  let w := w.drain .plain
  tickets.map fun t => .ofOutcome t.1 (outcome w t.2)

/-- A run of the files that the arguments name. -/
def invoke (disk : Disk) (directory : String) (i : Invocation) : Except Failure Result := do
  let settings ← settings disk i.config
  let reports := reports disk directory settings (i.version.getD settings.version) i.files
  return ⟨if reports.all Report.isSuccess then 0 else 1, reports.map Report.toLine, none⟩

/-- A run of the command line. -/
def run (disk : Disk) (directory : String) (arguments : List String) : Result :=
  match Request.ofArguments arguments with
  | .version => ⟨0, [versionLine], none⟩
  | .help => ⟨0, helpLines, none⟩
  | .misuse => ⟨2, [], some "wrong arguments; see --help"⟩
  | .run i =>
    match invoke disk directory i with
    | .ok result => result
    | .error failure => ⟨2, [], some failure.message⟩

end Reparse.CommandLine
