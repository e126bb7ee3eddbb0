/-!
JSON values. Members of an object are kept in their order and with their repetitions. A string
whose escapes spell half of a surrogate pair has no text; such a string is well formed all the
same, and is kept as `none`.
-/

namespace Reparse

/-- A JSON value. A number is an integer if it is written without a fraction and without an
exponent; minus zero is not one. Any other number is kept as it is written. -/
inductive Json where
  | null
  | bool (b : Bool)
  | integer (n : Int)
  | numeral (text : String)
  | string (s : Option String)
  | array (items : List Json)
  | object (members : List (Option String × Json))
deriving Inhabited

/-- The string with the given text. -/
def Json.text (s : String) : Json :=
  .string (some s)

/-- The object with the given members. -/
def Json.ofMembers (members : List (String × Json)) : Json :=
  .object (members.map fun m => (some m.1, m.2))

end Reparse
