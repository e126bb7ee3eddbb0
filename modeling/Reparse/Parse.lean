import Reparse.Layout.Scan
import Reparse.Text.Lines
import Reparse.Text.Utf8

/-!
Parsing one part of a document: from its octets to its outline and its reports. Reports are put in
the order of the places where they begin, and those that begin at one place stay in the order in
which they were met.
-/

namespace Reparse

/-- What a parse gives. -/
structure Parsed where
  outline : Outline
  diagnostics : List Diagnostic
deriving DecidableEq, Repr

/-- The text of a part: malformed octets are replaced, and one byte order mark in front is
dropped. -/
def decodeText (content : ByteArray) : List Char :=
  match Text.Utf8.decode content.toList with
  | '\uFEFF' :: cs => cs
  | cs => cs

namespace Layout

/-- The finder of the keywords that the options ask for. -/
def finder (options : Options) : TaskComment.Finder :=
  match options.taskComments with
  | some keywords => .ofKeywords keywords
  | none => .none

/-- The reports on the events of a text. -/
def diagnostics (options : Options) (events : List Event) : List Diagnostic :=
  if options.collect then
    (events.flatMap (Event.diagnostics options (finder options))).mergeSort
      fun a b => a.range.start.precedes b.range.start
  else []

/-- The statements of a text, from its events. -/
def statements (options : Options) (events : List Event) : List Statement :=
  events.flatMap (Event.statements options.version options.bindNames)

end Layout

/-- Parses a text that is already decoded. -/
def parseText (text : List Char) (options : Options) : Parsed :=
  let events := Layout.scan (Text.lines text)
  ⟨.single (Layout.statements options events), Layout.diagnostics options events⟩

/-- Parses the content of one part. -/
def parse (content : ByteArray) (options : Options) : Parsed :=
  parseText (decodeText content) options

end Reparse
