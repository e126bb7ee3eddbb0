/-!
The three sorts of brackets and the depth at which a text stands inside them. Depth counts without
regard to sorts, and a closer at depth zero leaves the depth at zero.
-/

namespace Reparse.Bracket

/-- The characters that open a bracket. -/
def isOpener (c : Char) : Bool :=
  c == '(' || c == '[' || c == '{'

/-- The characters that close a bracket. -/
def isCloser (c : Char) : Bool :=
  c == ')' || c == ']' || c == '}'

/-- The closer that belongs to an opener. -/
def closerOf (opener : Char) : Char :=
  if opener == '(' then ')' else if opener == '[' then ']' else '}'

/-- The depth after a character. -/
def depth (d : Nat) (c : Char) : Nat :=
  if isOpener c then d + 1 else if isCloser c then d - 1 else d

end Reparse.Bracket
