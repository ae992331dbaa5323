import SkinLint.Glob.Pattern
import SkinLint.Path

/-!
Matching paths against glob patterns, byte by byte. A part of a pattern leads from the bytes that
are left to all that may be left behind it.
-/
namespace SkinLint.Glob

/-- The bytes and all that are left when some of them are taken from the front. -/
def suffixes : Bytes → List Bytes
  | [] => [[]]
  | b :: s => (b :: s) :: suffixes s

/-- What is left behind a slash, for every slash. -/
def behindSlashes (s : Bytes) : List Bytes :=
  (suffixes s).filterMap fun
    | 47 :: rest => some rest
    | _ => none

/-- Bytes that the ends of a range stand for: all bytes of both characters, and those between the
last byte of the first and the first byte of the last. -/
def rangeHas (b : UInt8) (range : Char × Char) : Bool :=
  let first := Utf8.encodeChar range.1
  let last := Utf8.encodeChar range.2
  first.contains b || last.contains b ||
    (range.1 != range.2 && (first.getLast?.getD 0 ≤ b && b ≤ last.head?.getD 0))

mutual

def Part.isVoid : Part → Bool
  | .group branches => allVoid branches
  | _ => false

def partsVoid : List Part → Bool
  | [] => true
  | p :: rest => p.isVoid && partsVoid rest

def allVoid : List (List Part) → Bool
  | [] => true
  | branch :: rest => partsVoid branch && allVoid rest

end

mutual

/-- What may be left behind a part. -/
def Part.rests : Part → Bytes → List Bytes
  | .literal c, s =>
    if (Utf8.encodeChar c).isPrefixOf s then [s.drop (Utf8.encodeChar c).length] else []
  | .any, s =>
    match s with
    | [] => []
    | _ :: rest => [rest]
  | .many, s => suffixes s
  | .leading, s => s :: behindSlashes s
  | .trailing, s =>
    match s with
    | 47 :: rest => suffixes rest
    | _ => []
  | .between, s =>
    match s with
    | 47 :: rest => rest :: behindSlashes rest
    | _ => []
  | .oneOf negated ranges, s =>
    match s with
    | [] => []
    | b :: rest => if ranges.any (rangeHas b) != negated then [rest] else []
  | .group branches, s => if allVoid branches then [s] else branchesRests branches s

/-- What may be left behind parts that follow each other, from what may be left before them. -/
def partsRests : List Part → List Bytes → List Bytes
  | [], found => found
  | p :: rest, found => partsRests rest (found.flatMap fun s => p.rests s).eraseDups

/-- What may be left behind one of the branches that stand for something. -/
def branchesRests : List (List Part) → Bytes → List Bytes
  | [], _ => []
  | branch :: rest, s =>
    (if partsVoid branch then [] else partsRests branch [s]) ++ branchesRests rest s

end

/-- Does the pattern match the whole path? Folders at the front alone match everything. -/
def Pattern.accepts (p : Pattern) (path : Path) : Bool :=
  match p.parts with
  | [.leading] => true
  | parts => (partsRests parts [Utf8.encode path.text]).contains []

end SkinLint.Glob
