/-!
Why a request ends without a result, and the words for it. What is wrong with a text of code is no
failure: it is reported by a parse that succeeds. Only a failure of the system or of a document
outside carries another error as its cause.
-/

namespace Reparse

/-- The kinds of system errors that are told apart. -/
inductive IoError.Kind where
  | notFound
  | isADirectory
  | filesystemLoop
  | invalidData
  | other
deriving DecidableEq, Repr

/-- An error of the system, in its own words. -/
structure IoError where
  kind : IoError.Kind
  text : String
deriving DecidableEq, Repr

/-- An error that has nothing but words is of no kind that is told apart. -/
instance : Coe String IoError := ⟨fun text => ⟨.other, text⟩⟩

/-- Why a request ends without a result. -/
inductive Failure where
  | invalidArgument (text : String)
  | notFound (document : String) (path : Option String)
  | io (error : IoError)
  | external (document cause : String)
  | unexpected (text : String)
  | runtimeUnavailable (text : String)
  | cancelled
  | invalidLanguageVersion (text : String)
  | fileTooLarge (size limit : Nat)
  | json (text : String)
deriving DecidableEq, Repr

namespace Failure

/-- The failure in words. -/
def message : Failure → String
  | invalidArgument text => s!"invalid argument: {text}"
  | notFound document _ => s!"failed to parse {document}: no readable content"
  | io error => s!"I/O error: {error.text}"
  | external document cause => s!"external parse of {document} failed: {cause}"
  | unexpected text => s!"unexpected failure while parsing: {text}"
  | runtimeUnavailable text => s!"no async runtime available to schedule parse: {text}"
  | cancelled => "parse request was dropped before completing"
  | invalidLanguageVersion text => s!"invalid language version: {text}"
  | fileTooLarge size limit => s!"file too large: {size} bytes (max: {limit} bytes)"
  | json text => s!"JSON error: {text}"

/-- The words of the error that caused the failure. -/
def cause? : Failure → Option String
  | io error => some error.text
  | external _ cause => some cause
  | _ => none

end Failure

end Reparse
