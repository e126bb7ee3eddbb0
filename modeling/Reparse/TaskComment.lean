import Reparse.Keywords
import Reparse.Text.Split
import Reparse.Text.Word

/-!
Task comments: comments whose text begins with a keyword of a table. The keyword has to end there
or be followed by something other than a word character. Where several keywords fit, the longest
(by its UTF-8 octets) wins; keywords that fit one comment and are equally long are equal, so the
order of the table does not matter.
-/

namespace Reparse

/-- A comment that begins with a keyword. -/
structure TaskComment where
  keyword : String
  severity : Severity
  message : String
deriving DecidableEq, Repr

namespace TaskComment

/-- Longer keywords come first, and of equally long ones the one that sorts first. -/
def ranks (a b : String × Severity) : Bool :=
  b.1.utf8ByteSize < a.1.utf8ByteSize || (a.1.utf8ByteSize == b.1.utf8ByteSize && a.1 ≤ b.1)

/-- A table of keywords, in the order in which they are tried. -/
structure Finder where
  ranked : List (String × Severity)

namespace Finder

/-- The finder of no keyword. -/
def none : Finder := ⟨[]⟩

/-- The finder of a table's keywords. The empty keyword finds nothing. -/
def ofKeywords (t : Keywords) : Finder :=
  ⟨(t.entries.filter fun e => !e.1.isEmpty).mergeSort ranks⟩

def isEmpty (f : Finder) : Bool :=
  f.ranked.isEmpty

end Finder

/-- The text of a comment: what follows its number sign, without the blanks at both ends. -/
def text (comment : List Char) : List Char :=
  Text.trim (match comment with
    | '#' :: rest => rest
    | _ => comment)

/-- The text begins with the keyword, and the keyword ends there as a word. -/
def fits (key : String) (cs : List Char) : Bool :=
  match Text.dropBeginning? key.toList cs with
  | Option.none => false
  | some [] => true
  | some (c :: _) => !Text.isWordChar c

/-- Reads one comment, its number sign included. -/
def Finder.find? (f : Finder) (comment : List Char) : Option TaskComment :=
  let message := text comment
  (f.ranked.find? fun e => fits e.1 message).map fun e => ⟨e.1, e.2, String.ofList message⟩

end TaskComment

end Reparse
