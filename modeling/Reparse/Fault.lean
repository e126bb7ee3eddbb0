/-!
What can be wrong with the layout of a text, and the words in which each fault is reported.
-/

namespace Reparse

/-- A fault of layout, or a statement that the language version does not have. -/
inductive Fault where
  | unexpectedIndent
  | missingBlock
  | unindentMismatch
  | mixedIndent
  | unterminatedString
  | unterminatedTriple
  | unmatched (closer : Char)
  | mismatched (closer opener : Char)
  | neverClosed (opener : Char)
  | asyncUnsupported
deriving DecidableEq, Repr

/-- The report of a fault. -/
def Fault.message : Fault → String
  | .unexpectedIndent => "unexpected indent"
  | .missingBlock => "expected an indented block"
  | .unindentMismatch => "unindent does not match any outer indentation level"
  | .mixedIndent => "inconsistent use of tabs and spaces in indentation"
  | .unterminatedString => "unterminated string literal"
  | .unterminatedTriple => "unterminated triple-quoted string literal"
  | .unmatched closer => s!"unmatched '{closer}'"
  | .mismatched closer opener =>
    s!"closing parenthesis '{closer}' does not match opening parenthesis '{opener}'"
  | .neverClosed opener => s!"'{opener}' was never closed"
  | .asyncUnsupported => "'async' statements require Python 3.5 or newer"

end Reparse
