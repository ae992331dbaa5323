import SkinLint.Text.Basic

/-!
UTF-8. A first byte fixes how many bytes follow it and where the first of those lies; bytes that do
not fit are damage, which strict reading refuses and lenient reading replaces.
-/
namespace SkinLint

abbrev Bytes := List UInt8

namespace Utf8

def encodeChar (c : Char) : Bytes :=
  let n := c.toNat
  if n < 0x80 then [n.toUInt8]
  else if n < 0x800 then [(0xc0 + n / 64).toUInt8, (0x80 + n % 64).toUInt8]
  else if n < 0x10000 then
    [(0xe0 + n / 4096).toUInt8, (0x80 + n / 64 % 64).toUInt8, (0x80 + n % 64).toUInt8]
  else
    [(0xf0 + n / 262144).toUInt8, (0x80 + n / 4096 % 64).toUInt8, (0x80 + n / 64 % 64).toUInt8,
     (0x80 + n % 64).toUInt8]

def encode (t : Text) : Bytes := t.flatMap encodeChar

/-- What a first byte above ASCII calls for. -/
structure Shape where
  /-- How many bytes follow. -/
  tails : Nat
  /-- Bounds of the first of them. -/
  low : Nat
  high : Nat
  /-- The bits of the character in the first byte. -/
  bits : Nat

def shape? (b : Nat) : Option Shape :=
  if 0xc2 ≤ b ∧ b ≤ 0xdf then some ⟨1, 0x80, 0xbf, b - 0xc0⟩
  else if b = 0xe0 then some ⟨2, 0xa0, 0xbf, 0⟩
  else if b = 0xed then some ⟨2, 0x80, 0x9f, 0xd⟩
  else if 0xe1 ≤ b ∧ b ≤ 0xef then some ⟨2, 0x80, 0xbf, b - 0xe0⟩
  else if b = 0xf0 then some ⟨3, 0x90, 0xbf, 0⟩
  else if 0xf1 ≤ b ∧ b ≤ 0xf3 then some ⟨3, 0x80, 0xbf, b - 0xf0⟩
  else if b = 0xf4 then some ⟨3, 0x80, 0x8f, 4⟩
  else none

/-- The bytes of `rest` that continue a character: at most `count`, the first of them between `low`
and `high`. -/
def tails : Nat → Nat → Nat → Bytes → Bytes
  | 0, _, _, _ => []
  | _, _, _, [] => []
  | count + 1, low, high, b :: rest =>
    if low ≤ b.toNat ∧ b.toNat ≤ high then b :: tails count 0x80 0xbf rest else []

/-- The character that starts with the byte `b`, if the bytes are sound, and the number of further
bytes that belong to it or to the damage. -/
def read (b : UInt8) (rest : Bytes) : Option Char × Nat :=
  if b.toNat < 0x80 then (some (Char.ofNat b.toNat), 0)
  else
    match shape? b.toNat with
    | none => (none, 0)
    | some shape =>
      let ts := tails shape.tails shape.low shape.high rest
      if ts.length = shape.tails then
        (some (Char.ofNat (ts.foldl (fun n t => n * 64 + (t.toNat - 0x80)) shape.bits)), ts.length)
      else (none, ts.length)

/-- Strict reading, after `skip` bytes of a character already read. -/
def decodeFrom? : Nat → Bytes → Option Text
  | _, [] => some []
  | skip + 1, _ :: rest => decodeFrom? skip rest
  | 0, b :: rest =>
    match read b rest with
    | (none, _) => none
    | (some c, more) => (decodeFrom? more rest).map (c :: ·)

/-- The text, if all bytes are sound. -/
def decode? (bytes : Bytes) : Option Text := decodeFrom? 0 bytes

/-- The character that stands for damage. -/
def replacement : Char := Char.ofNat 0xfffd

/-- Lenient reading, after `skip` bytes of a character already read. -/
def decodeLossyFrom : Nat → Bytes → Text
  | _, [] => []
  | skip + 1, _ :: rest => decodeLossyFrom skip rest
  | 0, b :: rest => (read b rest).1.getD replacement :: decodeLossyFrom (read b rest).2 rest

/-- The text, with one replacement character for each damaged sequence. -/
def decodeLossy (bytes : Bytes) : Text := decodeLossyFrom 0 bytes

end Utf8

end SkinLint
