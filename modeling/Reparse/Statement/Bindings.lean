import Reparse.Bracket
import Reparse.Text.Blank
import Reparse.Text.Split
import Reparse.Text.Word

/-!
The names that a statement binds, read off its text. The text has no comments and its string
bodies are elided, so every bracket, comma and equals sign in it belongs to the code. A list of
targets or of imported items is cut at its commas, and an item binds a name if what is left of it
is one.
-/

namespace Reparse.Statement

/-- The text as a name, if it is one. -/
def name? (cs : List Char) : Option String :=
  if Text.isName cs then some (String.ofList cs) else none

/-- The text without blanks at its ends, as a name. -/
def trimmedName? (cs : List Char) : Option String :=
  name? (Text.trim cs)

/-- The text behind ` as `, if there is one. -/
def alias? (item : List Char) : Option (List Char) :=
  (Text.splitOnce " as ".toList item).map Prod.snd

/-- The name after a keyword such as `def`. -/
def leadingName (rest : List Char) : List String :=
  (name? (Text.splitWord rest).1).toList

/-- The name that an item of an `import` binds: its alias, or else its first component. -/
def importedModule? (item : List Char) : Option String :=
  trimmedName? ((alias? item).getD (item.takeWhile (· != '.')))

/-- The name that an item of a `from … import` binds: its alias, or else the item itself. -/
def importedName? (item : List Char) : Option String :=
  trimmedName? ((alias? item).getD item)

/-- The names bound by what follows `import`. -/
def importBindings (rest : List Char) : List String :=
  (rest.splitOn ',').filterMap fun item => importedModule? (Text.trim item)

/-- The names bound by what follows `from`. One pair of parentheses or more may surround the
items. -/
def fromBindings (rest : List Char) : List String :=
  match Text.splitOnce " import ".toList rest with
  | none => []
  | some (_, items) =>
    let items := Text.stripEnd (· == ')') (Text.stripStart (· == '(') (Text.trim items))
    (items.splitOn ',').filterMap fun item => importedName? (Text.trim item)

/-- The names that a target list binds. What follows a colon is an annotation; opening brackets and
stars in front of an item and closing brackets after it are dropped. -/
def targetNames (target : List Char) : List String :=
  ((target.takeWhile (· != ':')).splitOn ',').filterMap fun item =>
    let item := Text.stripStart (fun c => c == '(' || c == '[' || c == '*') (Text.trim item)
    trimmedName? (Text.stripEnd (fun c => c == ')' || c == ']') item)

/-- What an equals sign outside brackets is. -/
inductive EqualsRole where
  /-- It belongs to a comparison or to `:=`. -/
  | other
  /-- It ends an operator such as `+=`. -/
  | augmented
  /-- It stands between a target and a value. -/
  | plain
deriving DecidableEq, Repr

/-- The characters that may stand before the equals sign of an augmented assignment. -/
def isOperatorChar (c : Char) : Bool :=
  c == '+' || c == '-' || c == '*' || c == '/' || c == '%' || c == '&' || c == '|' || c == '^'
    || c == '@'

/-- The role of an equals sign, from the characters before it (nearest first) and the one after it.
A doubled `<` or `>` is a shift, so an equals sign after it ends an operator. -/
def equalsRole (before : List Char) (next : Option Char) : EqualsRole :=
  let shift := match before with
    | a :: b :: _ => a == b && (a == '<' || a == '>')
    | _ => false
  let previous := fun (p : Char → Bool) => before.head?.any p
  if next == some '=' then .other
  else if shift then .augmented
  else if previous fun c => c == '=' || c == '!' || c == '<' || c == '>' || c == ':' then .other
  else if previous isOperatorChar then .augmented
  else .plain

/-- Reads an assignment from here on. `before` is all that has been read and `target` what has been
read since the last plain equals sign, both newest first; `targets` holds the earlier target lists,
newest first. -/
def assignedFrom (depth : Nat) (before target : List Char) (targets : List (List Char)) :
    List Char → Option (List String)
  | [] => if targets.isEmpty then none else some (targets.reverse.flatMap targetNames)
  | c :: cs =>
    let role := if c = '=' ∧ depth = 0 then equalsRole before cs.head? else .other
    match role with
    | .other =>
      assignedFrom (Bracket.depth depth c) (c :: before) (c :: target) targets cs
    | .augmented =>
      let operator := fun c => isOperatorChar c || c == '<' || c == '>'
      some (targetNames (before.dropWhile operator).reverse)
    | .plain => assignedFrom depth (c :: before) [] (target.reverse :: targets) cs

/-- The names bound by an assignment, plain, chained or augmented; `none` if the text is no
assignment. -/
def assignedNames? (cs : List Char) : Option (List String) :=
  assignedFrom 0 [] [] [] cs

end Reparse.Statement
