import Reparse.Parse
import Reparse.Text.Split

/-!
Parsers as the scheduler sees them: a parser either gives a result or breaks off. `plain` never
breaks off. `drill` breaks off where the text tells it to, for trying out what the scheduler does
then.
-/

namespace Reparse

/-- The break-off of a parser or a reader, with what it said, if it said anything in words. -/
structure Panic where
  text : Option String
deriving DecidableEq, Repr

/-- The words of a break-off. -/
def Panic.message (p : Panic) : String :=
  p.text.getD "unknown panic"

/-- A parser of the parts of documents. -/
abbrev Parser := ByteArray → Options → Except Panic Parsed

namespace Parser

/-- The parser that never breaks off. -/
def plain : Parser :=
  fun content options => .ok (parse content options)

/-- The break-off that a line asks for. -/
def order? (line : List Char) : Option Panic :=
  if line = "#!panic-str".toList then some ⟨some "static boom"⟩
  else if line = "#!panic-any".toList then some ⟨none⟩
  else (Text.dropBeginning? "#!panic ".toList line).map fun text => ⟨some (String.ofList text)⟩

/-- The parser that breaks off at the first line that asks for it, and else is the plain one. -/
def drill : Parser :=
  fun content options =>
    match (Text.lines (Text.Utf8.decode content.toList)).findSome? order? with
    | some panic => .error panic
    | none => plain content options

end Parser

end Reparse
