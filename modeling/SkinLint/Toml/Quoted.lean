import SkinLint.Toml.Scalar

/-!
Strings between quotes. There are four forms, with one quote or three on either side and with or
without escapes; writing takes the first form, in a fixed order, that can hold the text.
-/
namespace SkinLint.Toml.Quoted

/-- May the character stand in a string or a comment as it is? -/
def isPlain (c : Char) : Bool := c == '\t' || (0x20 ≤ c.toNat && c.toNat != 0x7f)

/-- The character with a hexadecimal number. -/
def scalar? (t : Text) : Option Char :=
  let n := Scalar.number 16 t
  if t.all Scalar.isHexDigit && n.isValidChar then some (Char.ofNat n) else none

/-- The character that an escape stands for, from the text behind the backslash, and how much of
that text belongs to the escape. -/
def escape? (e : Edition) : Text → Option (Char × Nat)
  | 'b' :: _ => some (Char.ofNat 8, 1)
  | 't' :: _ => some ('\t', 1)
  | 'n' :: _ => some ('\n', 1)
  | 'f' :: _ => some (Char.ofNat 12, 1)
  | 'r' :: _ => some ('\r', 1)
  | '"' :: _ => some ('"', 1)
  | '\\' :: _ => some ('\\', 1)
  | 'u' :: t => if 4 ≤ t.length then (scalar? (t.take 4)).map (·, 5) else none
  | 'U' :: t => if 8 ≤ t.length then (scalar? (t.take 8)).map (·, 9) else none
  | 'e' :: _ => if e = .v11 then some (Char.ofNat 0x1b, 1) else none
  | 'x' :: t =>
    if e = .v11 ∧ 2 ≤ t.length then (scalar? (t.take 2)).map (·, 3) else none
  | _ => none

def prepend (c : Char) (found : Text × Text) : Text × Text := (c :: found.1, found.2)

/-- The string that ends at the next quote, and what follows; the first `skip` characters belong to
an escape already read. -/
def basicFrom? (e : Edition) : Nat → Text → Option (Text × Text)
  | _, [] => none
  | skip + 1, _ :: t => basicFrom? e skip t
  | 0, '"' :: t => some ([], t)
  | 0, '\\' :: t =>
    match escape? e t with
    | some (c, n) => (basicFrom? e n t).map (prepend c)
    | none => none
  | 0, c :: t => if isPlain c then (basicFrom? e 0 t).map (prepend c) else none

def literal? : Text → Option (Text × Text)
  | [] => none
  | '\'' :: t => some ([], t)
  | c :: t => if isPlain c then (literal? t).map (prepend c) else none

/-- Behind three closing quotes up to two more belong to the string. -/
def close (quote : Char) (t : Text) : Text × Text :=
  let extra := min 2 (t.takeWhile (· == quote)).length
  (List.replicate extra quote, t.drop extra)

def isSpace (c : Char) : Bool := c == ' ' || c == '\t'

/-- Does nothing but blanks stand before the end of the line? -/
def atLineEnd (t : Text) : Bool := (t.dropWhile isSpace).head? == some '\n'

/-- The string that ends at three quotes, and what follows. A backslash at the end of a line takes
away the blanks and line ends behind it; `joining` says that this is going on. -/
def longBasicFrom? (e : Edition) : Nat → Bool → Text → Option (Text × Text)
  | _, _, [] => none
  | skip + 1, joining, _ :: t => longBasicFrom? e skip joining t
  | 0, _, '"' :: '"' :: '"' :: t => some (close '"' t)
  | 0, _, '\\' :: t =>
    if atLineEnd t then longBasicFrom? e 0 true t
    else
      match escape? e t with
      | some (c, n) => (longBasicFrom? e n false t).map (prepend c)
      | none => none
  | 0, joining, c :: t =>
    if joining && (isSpace c || c == '\n') then longBasicFrom? e 0 true t
    else if isPlain c || c == '\n' then (longBasicFrom? e 0 false t).map (prepend c)
    else none

def longLiteral? : Text → Option (Text × Text)
  | [] => none
  | '\'' :: '\'' :: '\'' :: t => some (close '\'' t)
  | c :: t => if isPlain c || c == '\n' then (longLiteral? t).map (prepend c) else none

/-- A line end right behind the opening quotes does not count. -/
def dropLineEnd : Text → Text
  | '\n' :: t => t
  | t => t

def readShort? (e : Edition) : Text → Option (Text × Text)
  | '"' :: t => basicFrom? e 0 t
  | '\'' :: t => literal? t
  | _ => none

def read? (e : Edition) : Text → Option (Text × Text)
  | '"' :: '"' :: '"' :: t => longBasicFrom? e 0 false (dropLineEnd t)
  | '\'' :: '\'' :: '\'' :: t => longLiteral? (dropLineEnd t)
  | t => readShort? e t

/-- Control characters other than tab and line feed. -/
def isControl (c : Char) : Bool :=
  (c.toNat < 0x20 && c != '\t' && c != '\n') || c.toNat == 0x7f

def longestRun (quote : Char) (t : Text) : Nat :=
  (t.foldl (fun (run, best) c =>
    let run := if c == quote then run + 1 else 0
    (run, max run best)) (0, 0)).2

def upperHexDigit (n : Nat) : Char := (Nat.digitChar n).toUpper

/-- A character with an escape where it needs one, quotes apart. -/
def escapeChar (long : Bool) (c : Char) : Text :=
  if c == '\t' then ['\\', 't']
  else if c == '\n' then (if long then ['\n'] else ['\\', 'n'])
  else if c == '\\' then ['\\', '\\']
  else if c == '\r' then ['\\', 'r']
  else if c.toNat == 8 then ['\\', 'b']
  else if c.toNat == 12 then ['\\', 'f']
  else if isControl c then
    ['\\', 'u', '0', '0', upperHexDigit (c.toNat / 16), upperHexDigit (c.toNat % 16)]
  else [c]

/-- Escapes a text of which `allowed` more quotes may follow each other as they are; `most` quotes
may in all. -/
def escapeFrom (long : Bool) (most : Nat) : Nat → Text → Text
  | _, [] => []
  | allowed, c :: t =>
    if c == '"' then
      match allowed with
      | 0 => '\\' :: '"' :: escapeFrom long most most t
      | rest + 1 => '"' :: escapeFrom long most rest t
    else escapeChar long c ++ escapeFrom long most most t

/-- Long forms start on a line of their own when they hold several lines. -/
def lineStart (t : Text) : Text := if t.contains '\n' then ['\n'] else []

def writeBasic (t : Text) : Text := '"' :: escapeFrom false 0 0 t ++ ['"']

def writeLiteral (t : Text) : Text := '\'' :: t ++ ['\'']

def writeLongBasic (t : Text) : Text :=
  ['"', '"', '"'] ++ lineStart t ++ escapeFrom true 2 2 t ++ ['"', '"', '"']

def writeLongLiteral (t : Text) : Text :=
  ['\'', '\'', '\''] ++ lineStart t ++ t ++ ['\'', '\'', '\'']

def write (t : Text) : Text :=
  let oneLine := !t.contains '\n'
  let controls := t.any isControl
  if oneLine && !controls && !t.contains '\\' && !t.contains '"' then writeBasic t
  else if oneLine && !controls && !t.contains '\'' then writeLiteral t
  else if !controls && !t.contains '\\' && longestRun '"' t < 3 then writeLongBasic t
  else if !controls && longestRun '\'' t < 3 then writeLongLiteral t
  else if oneLine then writeBasic t
  else writeLongBasic t

end SkinLint.Toml.Quoted
