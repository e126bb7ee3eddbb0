/-!
Percent encoding of paths. Every octet of the path in UTF-8 is written by its two hexadecimal
digits behind a percent sign, except ASCII letters and digits, the four marks that need no
encoding, and the slash that separates the names in a path.
-/

namespace Reparse.Text

/-- The octets that stand for themselves in an encoded path. -/
def isUnreserved (b : UInt8) : Bool :=
  let c := Char.ofNat b.toNat
  b < 0x80 && (c.isAlphanum || c == '-' || c == '.' || c == '_' || c == '~' || c == '/')

/-- A hexadecimal digit with a capital letter. -/
def capitalDigit (n : Nat) : Char :=
  "0123456789ABCDEF".toList.getD n '0'

/-- An octet of an encoded path. -/
def percentOctet (b : UInt8) : List Char :=
  if isUnreserved b then [Char.ofNat b.toNat]
  else ['%', capitalDigit (b.toNat / 16), capitalDigit (b.toNat % 16)]

/-- An encoded path. -/
def percentEncode (path : String) : String :=
  String.ofList (path.toUTF8.toList.flatMap percentOctet)

end Reparse.Text
