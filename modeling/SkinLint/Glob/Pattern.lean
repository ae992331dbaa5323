import SkinLint.Encoding.Utf8

/-!
Reading glob patterns. A pattern is a list of parts: characters, `?`, `*`, `**` between slashes,
classes in brackets and groups of alternatives in braces.
-/
namespace SkinLint.Glob

inductive Part where
  | literal (c : Char)
  /-- Any one byte. -/
  | any
  /-- Any bytes. -/
  | many
  /-- Nothing, a slash, or folders at the front. -/
  | leading
  /-- A slash and what is below it. -/
  | trailing
  /-- A slash, or folders between slashes. -/
  | between
  | oneOf (negated : Bool) (ranges : List (Char × Char))
  | group (branches : List (List Part))

inductive Fault where
  | unclosedClass
  | invalidRange (first last : Char)
  | unopenedGroup
  | unclosedGroup
  | danglingEscape
deriving DecidableEq, Repr

def Fault.message : Fault → String
  | .unclosedClass => "unclosed character class; missing ']'"
  | .invalidRange first last =>
    "invalid range; '" ++ String.singleton first ++ "' > '" ++ String.singleton last ++ "'"
  | .unopenedGroup =>
    "unopened alternate group; missing '\x7b' (maybe escape '\x7d' with '[\x7d]'?)"
  | .unclosedGroup =>
    "unclosed alternate group; missing '\x7d' (maybe escape '\x7b' with '[\x7b]'?)"
  | .danglingEscape => "dangling '\\'"

/-- Ranges of a class read so far, the last one first. -/
structure ClassProgress where
  ranges : List (Char × Char) := []
  /-- A hyphen waits for the end of the last range. -/
  inRange : Bool := false

namespace ClassProgress

/-- Makes `c` the end of the last range. -/
def extend (c : Char) (p : ClassProgress) : Except Fault ClassProgress :=
  match p.ranges with
  | (first, _) :: rest =>
    if c < first then .error (.invalidRange first c) else .ok ⟨(first, c) :: rest, false⟩
  | [] => .ok ⟨[(c, c)], false⟩

/-- One character of a class, other than the bracket that closes it. -/
def add (isFirst : Bool) (c : Char) (p : ClassProgress) : Except Fault ClassProgress :=
  if p.inRange then p.extend c
  else if c == '-' && !isFirst then .ok { p with inRange := true }
  else .ok { p with ranges := (c, c) :: p.ranges }

/-- All ranges; a hyphen at the end stands for itself. -/
def close (p : ClassProgress) : List (Char × Char) :=
  (if p.inRange then ('-', '-') :: p.ranges else p.ranges).reverse

end ClassProgress

/-- The ranges of a class up to its bracket, and how many characters that takes. A bracket in front
stands for itself. -/
def readClass (isFirst : Bool) (count : Nat) (p : ClassProgress) :
    Text → Except Fault (List (Char × Char) × Nat)
  | [] => .error .unclosedClass
  | c :: t =>
    if c == ']' && !isFirst then .ok (p.close, count + 1)
    else
      match p.add isFirst c with
      | .error e => .error e
      | .ok p => readClass false (count + 1) p t

/-- A pattern that is being read; lists of parts have their last part first. -/
structure Progress where
  /-- The branch that is being read. -/
  current : List Part := []
  /-- For each open group, the innermost first: its finished branches, and the branch it is in. -/
  groups : List (List (List Part) × List Part) := []

namespace Progress

def push (part : Part) (p : Progress) : Progress := { p with current := part :: p.current }

def openGroup (p : Progress) : Progress := ⟨[], ([], p.current) :: p.groups⟩

def nextBranch (p : Progress) : Progress :=
  match p.groups with
  | [] => p.push (.literal ',')
  | (branches, outer) :: rest => ⟨[], (p.current.reverse :: branches, outer) :: rest⟩

def closeGroup (p : Progress) : Except Fault Progress :=
  match p.groups with
  | [] => .error .unopenedGroup
  | (branches, outer) :: rest =>
    .ok ⟨.group (p.current.reverse :: branches).reverse :: outer, rest⟩

/-- Puts `part` in the place of the last part, unless that already stands for folders. -/
def replaceLast (part : Part) (p : Progress) : Progress :=
  match p.current with
  | .leading :: _ => p
  | .trailing :: _ => p
  | _ :: rest => { p with current := part :: rest }
  | [] => p

/-- Two stars, with the character before them and the text behind: parts, and how many characters of
that text belong to them. -/
def doubleStar (before : Option Char) (behind : Text) (p : Progress) : Progress × Nat :=
  let inGroup := !p.groups.isEmpty
  let plain := (((p.push .many).push .many), 0)
  if p.current.isEmpty then
    match behind with
    | [] => (p.push .leading, 0)
    | '/' :: _ => (p.push .leading, 1)
    | _ => plain
  else if before == some '/' || (inGroup && (before == some ',' || before == some '\x7b')) then
    match behind with
    | [] => (p.replaceLast .trailing, 0)
    | '/' :: _ => (p.replaceLast .between, 1)
    | c :: _ =>
      if inGroup && (c == ',' || c == '\x7d') then (p.replaceLast .trailing, 0) else plain
  else plain

/-- Reads the character `c`; the number tells how many characters of `t` belong to it. -/
def step (before : Option Char) (c : Char) (t : Text) (p : Progress) :
    Except Fault (Progress × Nat) :=
  match c with
  | '?' => .ok (p.push .any, 0)
  | '*' =>
    match t with
    | '*' :: behind =>
      let (p, count) := p.doubleStar before behind
      .ok (p, count + 1)
    | _ => .ok (p.push .many, 0)
  | '[' =>
    let negated := t.head? == some '!' || t.head? == some '^'
    let start := if negated then 1 else 0
    (readClass true start {} (t.drop start)).map fun (ranges, count) =>
      (p.push (.oneOf negated ranges), count)
  | '\x7b' => .ok (p.openGroup, 0)
  | '\x7d' => p.closeGroup.map (·, 0)
  | ',' => .ok (p.nextBranch, 0)
  | '\\' =>
    match t with
    | [] => .error .danglingEscape
    | c :: _ => .ok (p.push (.literal c), 1)
  | c => .ok (p.push (.literal c), 0)

/-- Reads a text of which the first `skip` characters are done with. -/
def read : Nat → Option Char → Text → Progress → Except Fault Progress
  | _, _, [], p => .ok p
  | skip + 1, _, c :: t, p => read skip (some c) t p
  | 0, before, c :: t, p =>
    match p.step before c t with
    | .error e => .error e
    | .ok (p, count) => read count (some c) t p

end Progress

structure Pattern where
  text : Text
  parts : List Part

def Pattern.parse (t : Text) : Except Fault Pattern :=
  match Progress.read 0 none t {} with
  | .error e => .error e
  | .ok p => if p.groups.isEmpty then .ok ⟨t, p.current.reverse⟩ else .error .unclosedGroup

end SkinLint.Glob
