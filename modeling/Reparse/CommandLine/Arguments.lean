import Reparse.LanguageVersion
import Reparse.Text.Decimal
import Reparse.Text.Split

/-!
Arguments of the command line. Options and files may stand in any order; everything behind `--` is
a file. The value of an option stands behind an equals sign or in the argument after it, and then
it must not begin with a dash, unless it is a single one. The first argument that is wrong or asks
for information decides.
-/

namespace Reparse.CommandLine

/-- The options that take a value. -/
inductive OptionName where
  | config
  | python
  | timeout
deriving DecidableEq, Repr

/-- What a run is asked for. -/
structure Invocation where
  config : Option String
  version : Option LanguageVersion
  /-- Seconds to wait at most. -/
  timeout : Option Nat
  files : List String
deriving DecidableEq, Repr

/-- What the arguments ask for. -/
inductive Request where
  | run (invocation : Invocation)
  | version
  | help
  | misuse
deriving DecidableEq, Repr

/-- The arguments read so far: the invocation with its files newest first, the option that awaits
its value, and whether only files can follow. -/
structure Reading where
  invocation : Invocation
  awaits : Option OptionName
  filesOnly : Bool
deriving DecidableEq, Repr

/-- The option with the given name. -/
def optionName? (name : String) : Option OptionName :=
  if name = "config" then some .config
  else if name = "python" then some .python
  else if name = "timeout-secs" then some .timeout
  else none

/-- The largest timeout. -/
def timeoutLimit : Nat := 18446744073709551615

/-- The invocation with an option set; none if it is set already or the value is wrong. -/
def Invocation.set? (i : Invocation) (o : OptionName) (value : String) : Option Invocation :=
  match o with
  | .config =>
    if i.config.isSome || value.isEmpty then none else some { i with config := some value }
  | .python =>
    if i.version.isSome then none
    else (LanguageVersion.parse? value).map fun v => { i with version := some v }
  | .timeout =>
    if i.timeout.isSome then none
    else (Text.unsigned? timeoutLimit value.toList).map fun n => { i with timeout := some n }

namespace Reading

/-- Before the first argument. -/
def initial : Reading := ⟨⟨none, none, none, []⟩, none, false⟩

/-- Reads the value of an option. -/
def setOption (r : Reading) (o : OptionName) (value : String) : Except Request Reading :=
  match r.invocation.set? o value with
  | some invocation => .ok { r with invocation, awaits := none }
  | none => .error .misuse

/-- Reads a file. -/
def file (r : Reading) (path : String) : Except Request Reading :=
  if path.isEmpty then .error .misuse
  else .ok { r with invocation := { r.invocation with files := path :: r.invocation.files } }

/-- Reads an option that is given by its name, perhaps with its value. -/
def long (r : Reading) (name : String) (value : Option String) : Except Request Reading :=
  match optionName? name, value with
  | some o, some v => r.setOption o v
  | some o, none => .ok { r with awaits := some o }
  | none, none =>
    if name = "version" then .error .version
    else if name = "help" then .error .help
    else .error .misuse
  | none, some _ => .error .misuse

/-- Reads an argument that begins with a dash. -/
def dashed (r : Reading) (rest : List Char) : Except Request Reading :=
  if r.awaits.isSome then .error .misuse
  else match rest with
    | ['-'] => .ok { r with filesOnly := true }
    | '-' :: cs =>
      match Text.splitOnce ['='] cs with
      | some (name, value) => r.long (String.ofList name) (some (String.ofList value))
      | none => r.long (String.ofList cs) none
    | 'V' :: _ => .error .version
    | 'h' :: _ => .error .help
    | _ => .error .misuse

/-- Reads the next argument. -/
def step (r : Reading) (argument : String) : Except Request Reading :=
  if r.filesOnly then r.file argument
  else match argument.toList with
    | '-' :: c :: cs => r.dashed (c :: cs)
    | _ =>
      match r.awaits with
      | some o => r.setOption o argument
      | none => r.file argument

/-- The request when the arguments end. There has to be a file. -/
def finish (r : Reading) : Request :=
  if r.awaits.isSome || r.invocation.files.isEmpty then .misuse
  else .run { r.invocation with files := r.invocation.files.reverse }

end Reading

/-- What the arguments ask for. -/
def Request.ofArguments (arguments : List String) : Request :=
  match arguments.foldlM Reading.step .initial with
  | .ok r => r.finish
  | .error request => request

end Reparse.CommandLine
