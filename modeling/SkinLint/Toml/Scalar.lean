import SkinLint.Toml.Edition
import SkinLint.Toml.Value

/-!
Numbers, truth values, dates and times. Each is one run of letters, digits and signs, which a
grammar either takes as a whole or refuses.
-/
namespace SkinLint.Toml.Scalar

def isRunChar (c : Char) : Bool :=
  Text.isAsciiAlphanumeric c || ['_', '+', '-', '.', ':'].contains c

/-- Digits of some base with single underscores between them, without the underscores. -/
def digits? (isDigit : Char → Bool) : Text → Option Text
  | [] => none
  | [c] => if isDigit c then some [c] else none
  | c :: '_' :: rest => if isDigit c then (digits? isDigit rest).map (c :: ·) else none
  | c :: rest => if isDigit c then (digits? isDigit rest).map (c :: ·) else none

def digitValue (c : Char) : Nat :=
  if c ≤ '9' then c.toNat - '0'.toNat
  else if 'a' ≤ c then c.toNat - 'a'.toNat + 10
  else c.toNat - 'A'.toNat + 10

def number (base : Nat) (t : Text) : Nat := t.foldl (fun n c => n * base + digitValue c) 0

def isHexDigit (c : Char) : Bool :=
  Text.isAsciiDigit c || ('a' ≤ c && c ≤ 'f') || ('A' ≤ c && c ≤ 'F')

def isOctalDigit (c : Char) : Bool := '0' ≤ c && c ≤ '7'

def isBinaryDigit (c : Char) : Bool := c == '0' || c == '1'

def splitSign : Text → Bool × Text
  | '+' :: rest => (false, rest)
  | '-' :: rest => (true, rest)
  | t => (false, t)

/-- Decimal digits that start with zero only if they are that zero. -/
def wholePart? (t : Text) : Option Text :=
  match digits? Text.isAsciiDigit t with
  | some ('0' :: _ :: _) => none
  | found => found

def inRange (n : Int) : Bool := -0x8000000000000000 ≤ n && n < 0x8000000000000000

def boundedInteger? (n : Int) : Option Value := if inRange n then some (.integer n) else none

def integer? (t : Text) : Option Value :=
  match t with
  | '0' :: 'x' :: rest =>
    (digits? isHexDigit rest).bind fun ds => boundedInteger? (number 16 ds)
  | '0' :: 'o' :: rest =>
    (digits? isOctalDigit rest).bind fun ds => boundedInteger? (number 8 ds)
  | '0' :: 'b' :: rest =>
    (digits? isBinaryDigit rest).bind fun ds => boundedInteger? (number 2 ds)
  | _ =>
    (wholePart? (splitSign t).2).bind fun ds =>
      boundedInteger? (if (splitSign t).1 then -(number 10 ds : Int) else number 10 ds)

/-- Does `mantissa`, read as an integer, times ten to the power of `exponent` round to a number
beyond all floating point numbers of 64 bits? From 310 places before the point on it does, and with
less than 300 it does not, whatever the digits. -/
def overflows (mantissa : Text) (exponent : Int) : Bool :=
  let significant := mantissa.dropWhile (· == '0')
  let places : Int := significant.length + exponent
  if significant.isEmpty || places < 300 then false
  else if 310 ≤ places then true
  else
    let limit := Nat.pow 2 1024 - Nat.pow 2 970
    if 0 ≤ exponent then limit ≤ number 10 significant * Nat.pow 10 exponent.toNat
    else limit * Nat.pow 10 (-exponent).toNat ≤ number 10 significant

/-- The exponent behind the letter, and its absence as zero. -/
def exponent? : Option Text → Option Int
  | none => some 0
  | some t =>
    (digits? Text.isAsciiDigit (splitSign t).2).map fun ds =>
      if (splitSign t).1 then -(number 10 ds : Int) else number 10 ds

/-- Text before and behind an `e` in either case. -/
def splitExponent (t : Text) : Text × Option Text :=
  let isMark := fun c : Char => c == 'e' || c == 'E'
  match t.dropWhile (!isMark ·) with
  | [] => (t, none)
  | _ :: behind => (t.takeWhile (!isMark ·), some behind)

def float? (t : Text) : Option Value := do
  let (negative, unsigned) := splitSign t
  if unsigned = "inf".toList ∨ unsigned = "nan".toList then return .float t
  let (mantissa, scale) := splitExponent unsigned
  let (whole, fraction) ←
    match Text.splitFirst? '.' mantissa with
    | some (whole, fraction) => do
      pure (← wholePart? whole, ← digits? Text.isAsciiDigit fraction)
    | none => if scale.isSome then pure (← wholePart? mantissa, []) else none
  let exponent ← exponent? scale
  if !negative && overflows (whole ++ fraction) (exponent - fraction.length) then none
  else return .float t

/-- A number of exactly `count` digits between two bounds, and the text behind it. -/
def fixed? (count low high : Nat) (t : Text) : Option (Nat × Text) := do
  let n ← Text.decimal? (t.take count)
  if (t.take count).length = count ∧ low ≤ n ∧ n ≤ high then some (n, t.drop count) else none

def expect? (c : Char) : Text → Option Text
  | d :: rest => if c = d then some rest else none
  | [] => none

def isLeapYear (y : Nat) : Bool := (y % 4 == 0 && y % 100 != 0) || y % 400 == 0

def daysInMonth (year month : Nat) : Nat :=
  if month = 2 then (if isLeapYear year then 29 else 28)
  else if [4, 6, 9, 11].contains month then 30
  else 31

def date? (t : Text) : Option Text := do
  let (year, t) ← fixed? 4 0 9999 t
  let (month, t) ← fixed? 2 1 12 (← expect? '-' t)
  let (_, t) ← fixed? 2 1 (daysInMonth year month) (← expect? '-' t)
  return t

def seconds? (t : Text) : Option Text := do
  let (_, t) ← fixed? 2 0 60 (← expect? ':' t)
  match t with
  | '.' :: c :: rest =>
    if Text.isAsciiDigit c then return rest.dropWhile Text.isAsciiDigit else none
  | _ => return t

def time? (e : Edition) (t : Text) : Option Text := do
  let (_, t) ← fixed? 2 0 23 t
  let (_, t) ← fixed? 2 0 59 (← expect? ':' t)
  if e = .v11 ∧ t.head? ≠ some ':' then return t else seconds? t

/-- Is this nothing, or the distance from universal time? -/
def isOffset : Text → Bool
  | [] | ['Z'] | ['z'] => true
  | sign :: t =>
    (sign == '+' || sign == '-') &&
      ((do
        let (_, t) ← fixed? 2 0 23 t
        let (_, t) ← fixed? 2 0 59 (← expect? ':' t)
        return t.isEmpty).getD false)

/-- A time and its offset, and nothing behind. -/
def isOffsetTime (e : Edition) (t : Text) : Bool := ((time? e t).map isOffset).getD false

def isMoment (e : Edition) (t : Text) : Bool :=
  time? e t == some [] ||
    match date? t with
    | some [] => true
    | some (mark :: rest) => (mark == 'T' || mark == 't') && isOffsetTime e rest
    | none => false

def ofRun? (e : Edition) (t : Text) : Option Value :=
  if t = "true".toList then some (.boolean true)
  else if t = "false".toList then some (.boolean false)
  else if isMoment e t then some (.moment t)
  else (float? t).orElse fun _ => integer? t

/-- The value at the front and what stands behind it. A date may be followed by one space and a
time. -/
def read? (e : Edition) (t : Text) : Option (Value × Text) :=
  let run := t.takeWhile isRunChar
  let rest := t.dropWhile isRunChar
  match date? run, rest with
  | some [], ' ' :: behind =>
    let second := behind.takeWhile isRunChar
    if isOffsetTime e second then
      some (.moment (run ++ ' ' :: second), behind.dropWhile isRunChar)
    else some (.moment run, rest)
  | _, _ => (ofRun? e run).map (·, rest)

end SkinLint.Toml.Scalar
