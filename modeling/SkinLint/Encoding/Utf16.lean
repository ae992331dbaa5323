import SkinLint.Encoding.Utf8

/-! UTF-16: characters as one unit of sixteen bits, or as two surrogates. -/
namespace SkinLint.Utf16

def encodeChar (c : Char) : List Nat :=
  let n := c.toNat
  if n < 0x10000 then [n] else [0xd800 + (n - 0x10000) / 0x400, 0xdc00 + (n - 0x10000) % 0x400]

def encode (t : Text) : List Nat := t.flatMap encodeChar

def isHigh (u : Nat) : Bool := 0xd800 ≤ u && u < 0xdc00

def isLow (u : Nat) : Bool := 0xdc00 ≤ u && u < 0xe000

/-- The text, if every surrogate has its partner. -/
def decode? : List Nat → Option Text
  | [] => some []
  | u :: rest =>
    if isLow u then none
    else if isHigh u then
      match rest with
      | [] => none
      | v :: rest =>
        if isLow v then
          (decode? rest).map (Char.ofNat (0x10000 + (u - 0xd800) * 0x400 + (v - 0xdc00)) :: ·)
        else none
    else (decode? rest).map (Char.ofNat u :: ·)

def unitBytes (bigEnd : Bool) (u : Nat) : Bytes :=
  if bigEnd then [(u / 256).toUInt8, (u % 256).toUInt8] else [(u % 256).toUInt8, (u / 256).toUInt8]

/-- Bytes taken in pairs; there is no reading of an odd number of bytes. -/
def units? (bigEnd : Bool) : Bytes → Option (List Nat)
  | [] => some []
  | [_] => none
  | a :: b :: rest =>
    (units? bigEnd rest).map
      ((if bigEnd then a.toNat * 256 + b.toNat else b.toNat * 256 + a.toNat) :: ·)

end SkinLint.Utf16
