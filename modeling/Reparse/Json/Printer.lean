import Reparse.Json.Basic
import Reparse.Text.Decimal

/-!
Writing JSON texts without blanks. In strings, quotes, backslashes and control characters are
escaped, and every other character is written as it is.
-/

namespace Reparse.Json

/-- A hexadecimal digit. -/
def hexDigit (n : Nat) : Char :=
  "0123456789abcdef".toList.getD n '0'

/-- A character of a string. -/
def escaped (c : Char) : List Char :=
  match c with
  | '"' => ['\\', '"']
  | '\\' => ['\\', '\\']
  | '\x08' => ['\\', 'b']
  | '\x0c' => ['\\', 'f']
  | '\n' => ['\\', 'n']
  | '\r' => ['\\', 'r']
  | '\t' => ['\\', 't']
  | _ =>
    if c.toNat < 0x20 then ['\\', 'u', '0', '0', hexDigit (c.toNat / 16), hexDigit (c.toNat % 16)]
    else [c]

/-- A string, with its quotes. -/
def quoted (s : String) : List Char :=
  '"' :: s.toList.flatMap escaped ++ ['"']

mutual

/-- A value. A string without a text is written as an empty one. -/
def render : Json → List Char
  | .null => "null".toList
  | .bool b => if b then "true".toList else "false".toList
  | .integer n => Text.signedDigits n
  | .numeral text => text.toList
  | .string s => quoted (s.getD "")
  | .array items => '[' :: renderItems items ++ [']']
  | .object members => '{' :: renderMembers members ++ ['}']

/-- The items of an array, separated by commas. -/
def renderItems : List Json → List Char
  | [] => []
  | [v] => render v
  | v :: w :: rest => render v ++ ',' :: renderItems (w :: rest)

/-- The members of an object, separated by commas. -/
def renderMembers : List (Option String × Json) → List Char
  | [] => []
  | [(key, v)] => quoted (key.getD "") ++ ':' :: render v
  | (key, v) :: m :: rest =>
    quoted (key.getD "") ++ ':' :: render v ++ ',' :: renderMembers (m :: rest)

end

/-- The text of a value. -/
def toText (v : Json) : String :=
  String.ofList (render v)

end Reparse.Json
