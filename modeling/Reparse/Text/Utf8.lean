/-!
UTF-8 as a reader of octets. Each octet either begins a character or continues the one that is
open; an octet that can do neither closes the open character as malformed and is then looked at
again as a first octet. So every malformed stretch is a longest beginning of a character, and each
counts once, however many octets it has. `decode` puts U+FFFD in the place of each, `decode?`
refuses the whole text.
-/

namespace Reparse.Text.Utf8

/-- A character that has begun: how many octets it still needs, the bounds of the next of them, and
the bits read so far. -/
structure Unfinished where
  need : Nat
  low : UInt8
  high : UInt8
  bits : Nat

/-- What a first octet does. -/
inductive Lead where
  | single (c : Char)
  | starts (u : Unfinished)
  | malformed

/-- The meaning of a first octet. The bounds of the second octet exclude spellings that are longer
than needed, halves of surrogate pairs and numbers above U+10FFFF. -/
def lead (b : UInt8) : Lead :=
  if b < 0x80 then .single (Char.ofNat b.toNat)
  else if b < 0xC2 then .malformed
  else if b < 0xE0 then .starts ⟨1, 0x80, 0xBF, b.toNat % 0x20⟩
  else if b == 0xE0 then .starts ⟨2, 0xA0, 0xBF, 0⟩
  else if b == 0xED then .starts ⟨2, 0x80, 0x9F, 0xD⟩
  else if b < 0xF0 then .starts ⟨2, 0x80, 0xBF, b.toNat % 0x10⟩
  else if b == 0xF0 then .starts ⟨3, 0x90, 0xBF, 0⟩
  else if b < 0xF4 then .starts ⟨3, 0x80, 0xBF, b.toNat % 0x08⟩
  else if b == 0xF4 then .starts ⟨3, 0x80, 0x8F, 4⟩
  else .malformed

/-- The reader between two octets: the character that is open and what has been read, newest
first. A malformed stretch is read as `none`. -/
structure Reader where
  unfinished : Option Unfinished
  units : List (Option Char)

/-- Reads an octet as the first of a character. -/
def Reader.first (units : List (Option Char)) (b : UInt8) : Reader :=
  match lead b with
  | .single c => ⟨none, some c :: units⟩
  | .starts u => ⟨some u, units⟩
  | .malformed => ⟨none, none :: units⟩

/-- Reads the next octet. -/
def Reader.step (r : Reader) (b : UInt8) : Reader :=
  match r.unfinished with
  | none => .first r.units b
  | some u =>
    if u.low ≤ b && b ≤ u.high then
      let bits := u.bits * 0x40 + b.toNat % 0x40
      if u.need ≤ 1 then ⟨none, some (Char.ofNat bits) :: r.units⟩
      else ⟨some ⟨u.need - 1, 0x80, 0xBF, bits⟩, r.units⟩
    else .first (none :: r.units) b

/-- What has been read when the octets end: a character that is still open is malformed. -/
def Reader.finish (r : Reader) : List (Option Char) :=
  (match r.unfinished with
    | none => r.units
    | some _ => none :: r.units).reverse

/-- The characters of a sequence of octets, with `none` for each malformed stretch. -/
def units (bs : List UInt8) : List (Option Char) :=
  (bs.foldl Reader.step ⟨none, []⟩).finish

/-- The text with U+FFFD in the place of each malformed stretch. -/
def decode (bs : List UInt8) : List Char :=
  (units bs).map fun u => u.getD '\uFFFD'

/-- The text, if no stretch is malformed. -/
def decode? (bs : List UInt8) : Option (List Char) :=
  (units bs).foldr (fun u rest => u.bind fun c => rest.map (c :: ·)) (some [])

end Reparse.Text.Utf8
