import SkinLint.Document
import SkinLint.Text.Word

/-! Colours written in a document, as three decimal numbers or as six hexadecimal digits. -/
namespace SkinLint

structure Colour where
  red : UInt8
  green : UInt8
  blue : UInt8
  alpha : UInt8
deriving DecidableEq, Repr

namespace Colour

inductive Form where
  /-- Decimal numbers with commas between them. -/
  | rgb
  /-- Two hexadecimal digits for each part. -/
  | hex
deriving DecidableEq, Repr

def Form.name : Form → String
  | .rgb => "rgb"
  | .hex => "hex"

structure Entry where
  range : Range
  colour : Colour
  form : Form
deriving DecidableEq, Repr

def hexDigit? (c : Char) : Option Nat :=
  if '0' ≤ c ∧ c ≤ '9' then some (c.toNat - '0'.toNat)
  else if 'a' ≤ c ∧ c ≤ 'f' then some (c.toNat - 'a'.toNat + 10)
  else if 'A' ≤ c ∧ c ≤ 'F' then some (c.toNat - 'A'.toNat + 10)
  else none

def isHexDigit (c : Char) : Bool := (hexDigit? c).isSome

/-- A number as it starts a text, one to three digits long, and what follows it. -/
def number? (t : Text) : Option (Text × Text) :=
  let run := t.takeWhile Text.isDigit
  if 1 ≤ run.length ∧ run.length ≤ 3 then some (run, t.dropWhile Text.isDigit) else none

/-- What follows a comma and the spaces and tabs behind it. -/
def afterComma? : Text → Option Text
  | ',' :: t => some (t.dropWhile fun c => c == ' ' || c == '\t')
  | _ => none

/-- Three linked numbers at the start of a text, up to the end of a word. -/
def triple? (t : Text) : Option (Text × Text × Text × Text) := do
  let (a, t) ← number? t
  let t ← afterComma? t
  let (b, t) ← number? t
  let t ← afterComma? t
  let (c, t) ← number? t
  if Text.startsWord t then none else some (a, b, c, t)

/-- A part of a colour: the number, but at most 255. Digits of other scripts have no value. -/
def part? (t : Text) : Option UInt8 := (Text.decimal? t).map fun n => (min n 255).toUInt8

def ofTriple? (a b c : Text) : Option Colour := do
  some ⟨← part? a, ← part? b, ← part? c, 255⟩

def pair (a b : Char) : UInt8 := ((hexDigit? a).getD 0 * 16 + (hexDigit? b).getD 0).toUInt8

/-- Six hexadecimal digits at the start of a text, up to the end of a word. -/
def sextuple? : Text → Option (Colour × Text)
  | a :: b :: c :: d :: e :: f :: t =>
    if [a, b, c, d, e, f].all isHexDigit && !Text.startsWord t then
      some (⟨pair a b, pair c d, pair e f, 255⟩, t)
    else none
  | _ => none

/-- The literal at the start of a text that begins a word: its colour, if it has a value, its form,
and its length. -/
def literal? (t : Text) : Option (Option (Colour × Form) × Nat) :=
  match triple? t with
  | some (a, b, c, rest) => some ((ofTriple? a b c).map (·, .rgb), t.length - rest.length)
  | none => (sextuple? t).map fun (colour, rest) => (some (colour, .hex), t.length - rest.length)

/-- The colours of a text from a column on. `inWord` tells whether the character before the text
belongs to a word, and the first `skip` characters belong to a literal already read. -/
def scan (line : Nat) : Bool → Nat → Nat → Text → List Entry
  | _, _, _, [] => []
  | _, skip + 1, column, c :: t => scan line (Text.isWord c) skip (column + 1) t
  | inWord, 0, column, c :: t =>
    if inWord then scan line (Text.isWord c) 0 (column + 1) t
    else
      match literal? (c :: t) with
      | none => scan line (Text.isWord c) 0 (column + 1) t
      | some (found, length) =>
        (match found with
         | some (colour, form) => [⟨Range.onLine line column (column + length), colour, form⟩]
         | none => []) ++ scan line (Text.isWord c) (length - 1) (column + 1) t

def entries (text : Text) : List Entry :=
  (Document.lines text).flatMap fun l => scan l.index false 0 0 l.text

def hexPair (n : UInt8) : Text :=
  [Nat.digitChar (n.toNat / 16), Nat.digitChar (n.toNat % 16)]

/-- A colour as it is written in a skin; the alpha part is not written. -/
def write (c : Colour) : Form → Text
  | .rgb =>
    Text.joinWith [','] [Text.ofNat c.red.toNat, Text.ofNat c.green.toNat, Text.ofNat c.blue.toNat]
  | .hex => hexPair c.red ++ hexPair c.green ++ hexPair c.blue

end Colour

end SkinLint
