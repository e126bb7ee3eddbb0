import Reparse.Failure
import Reparse.Text.Blank
import Reparse.Text.Decimal
import Reparse.Text.Split

/-!
Versions of the Python language, written `major.minor`. Each number is at most 255 and may carry a
plus and zeros in front; blanks may surround the whole and stand nowhere inside.
-/

namespace Reparse

/-- A version of the language. -/
structure LanguageVersion where
  major : UInt8
  minor : UInt8
deriving DecidableEq, Repr

namespace LanguageVersion

/-- The version that is assumed where none is given. -/
def standard : LanguageVersion := ⟨3, 12⟩

/-- Versions are ordered by their major number, and under one major number by the minor. -/
def compare (v w : LanguageVersion) : Ordering :=
  (Ord.compare v.major.toNat w.major.toNat).then (Ord.compare v.minor.toNat w.minor.toNat)

/-- The version is the other one or a later one. -/
def atLeast (v w : LanguageVersion) : Bool :=
  w.major < v.major || (v.major == w.major && w.minor ≤ v.minor)

/-- One of the two numbers. -/
def number? (cs : List Char) : Option UInt8 :=
  (Text.unsigned? 255 cs).map UInt8.ofNat

/-- The version that a text spells. -/
def parse? (s : String) : Option LanguageVersion := do
  let (major, minor) ← Text.splitOnce ['.'] (Text.trim s.toList)
  return ⟨← number? major, ← number? minor⟩

/-- The version that a text spells, or else the failure that names the text. -/
def parse (s : String) : Except Failure LanguageVersion :=
  match parse? s with
  | some v => .ok v
  | none => .error (.invalidLanguageVersion s)

/-- The shortest spelling. -/
def toText (v : LanguageVersion) : String :=
  String.ofList (Text.digits v.major.toNat ++ '.' :: Text.digits v.minor.toNat)

end LanguageVersion

end Reparse
