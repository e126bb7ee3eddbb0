import Reparse.Fault
import Reparse.LanguageVersion
import Reparse.Outline
import Reparse.Statement.Bindings

/-!
What sort of statement a text is. The leading word decides; where it is no keyword, the text is an
assignment or an expression. `match` and `case` are keywords only in headers and only where the
language has them, and a compound statement with `async` is one only where the language has it.
-/

namespace Reparse.Statement

/-- The sort of a statement, the names it binds and what is wrong with it. -/
structure Sorted where
  kind : Kind
  bindings : List String
  fault : Option Fault
deriving DecidableEq, Repr

/-- A statement without a fault. -/
def Sorted.sound (kind : Kind) (bindings : List String) : Sorted :=
  ⟨kind, bindings, none⟩

/-- An assignment if the text is one, and else an expression. -/
def classifyPlain (cs : List Char) : Sorted :=
  match assignedNames? cs with
  | some names => .sound .assignment names
  | none => .sound .expression []

/-- The keywords that begin a compound statement other than a definition. -/
def controlWords : List String :=
  ["if", "elif", "else", "for", "while", "try", "except", "finally", "with"]

/-- The keywords that begin a compound statement only as its header. -/
def softWords : List String :=
  ["match", "case"]

/-- Sorts what follows the word `async`. -/
def classifyAsync (rest : List Char) (version : LanguageVersion) : Sorted :=
  let (word, after) := Text.splitWord rest
  let word := String.ofList word
  if word == "def" || word == "for" || word == "with" then
    if !version.atLeast ⟨3, 5⟩ then ⟨.expression, [], some .asyncUnsupported⟩
    else if word == "def" then .sound .asyncFunctionDef (leadingName (Text.trimStart after))
    else .sound .control []
  else classifyPlain ("async ".toList ++ rest)

/-- Sorts a statement by its text, which has no blanks at its ends. -/
def classifyTrimmed (cs : List Char) (version : LanguageVersion) : Sorted :=
  let (word, after) := Text.splitWord cs
  let word := String.ofList word
  let rest := Text.trimStart after
  if cs.head? == some '@' then .sound .decorator []
  else if word == "import" then .sound .importing (importBindings rest)
  else if word == "from" then .sound .importing (fromBindings rest)
  else if word == "def" then .sound .functionDef (leadingName rest)
  else if word == "class" then .sound .classDef (leadingName rest)
  else if word == "async" then classifyAsync rest version
  else if word == "return" then .sound .returning []
  else if word == "pass" then .sound .passing []
  else if controlWords.contains word then .sound .control []
  else if softWords.contains word && version.atLeast ⟨3, 10⟩ && cs.getLast? == some ':' then
    .sound .control []
  else classifyPlain cs

/-- Sorts a statement by its text. -/
def classify (cs : List Char) (version : LanguageVersion) : Sorted :=
  classifyTrimmed (Text.trim cs) version

end Reparse.Statement
