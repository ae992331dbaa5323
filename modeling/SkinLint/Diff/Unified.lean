import SkinLint.Diff.Compaction
import SkinLint.Diff.Script

/-!
Unified diffs: hunks of changed lines with up to three equal lines around them, under a header that
names the two sides.
-/
namespace SkinLint.Diff

/-- A run of equal lines, or lines that are replaced by others. -/
structure Segment where
  same : Bool
  oldStart : Nat
  oldLength : Nat
  newStart : Nat
  newLength : Nat
deriving DecidableEq, Repr

namespace Segment

def oldEnd (s : Segment) : Nat := s.oldStart + s.oldLength

def newEnd (s : Segment) : Nat := s.newStart + s.newLength

/-- Equal lines without the first `n`. -/
def dropFront (n : Nat) (s : Segment) : Segment :=
  { s with oldStart := s.oldStart + n, oldLength := s.oldLength - n
           newStart := s.newStart + n, newLength := s.newLength - n }

/-- The first `n` of equal lines. -/
def takeFront (n : Nat) (s : Segment) : Segment := { s with oldLength := n, newLength := n }

end Segment

/-- Changes that have not been closed by kept lines yet. -/
structure Pending where
  deleted : Option Edit := none
  inserted : Option Edit := none

/-- Another edit joins an open run of the same action. -/
def extend (run : Option Edit) (e : Edit) : Option Edit :=
  match run with
  | none => some e
  | some first => some (first.grow (max e.oldLength e.newLength))

def Pending.flush (p : Pending) : List Segment :=
  match p.deleted, p.inserted with
  | none, none => []
  | some d, none => [⟨false, d.oldStart, d.oldLength, d.newStart, 0⟩]
  | none, some i => [⟨false, i.oldStart, 0, i.newStart, i.newLength⟩]
  | some d, some i => [⟨false, d.oldStart, d.oldLength, i.newStart, i.newLength⟩]

/-- Edits as segments: what is deleted and inserted between two kept runs is one replacement. -/
def segments : Pending → List Edit → List Segment
  | p, [] => p.flush
  | p, e :: rest =>
    match e.action with
    | .delete => segments { p with deleted := extend p.deleted e } rest
    | .insert => segments { p with inserted := extend p.inserted e } rest
    | .keep =>
      p.flush ++
        match segments {} rest with
        | next :: more =>
          if next.same then
            ⟨true, e.oldStart, e.oldLength + next.oldLength, e.newStart,
              e.newLength + next.newLength⟩ :: more
          else ⟨true, e.oldStart, e.oldLength, e.newStart, e.newLength⟩ :: next :: more
        | [] => [⟨true, e.oldStart, e.oldLength, e.newStart, e.newLength⟩]

/-- Equal lines shown before and after a change. -/
def contextLines : Nat := 3

/-- Equal lines at the start show their end only. -/
def trimFirst : List Segment → List Segment
  | s :: rest => (if s.same then s.dropFront (s.oldLength - contextLines) else s) :: rest
  | [] => []

/-- Equal lines at the end show their start only. -/
def trimLast : List Segment → List Segment
  | [] => []
  | [s] => [if s.same then s.takeFront (min s.oldLength contextLines) else s]
  | s :: rest => s :: trimLast rest

/-- Divides segments into hunks at long runs of equal lines. `group` is the open hunk in reverse. -/
def divide : List Segment → List Segment → List (List Segment)
  | group, [] =>
    match group with
    | [] => []
    | [s] => if s.same then [] else [[s]]
    | group => [group.reverse]
  | group, s :: rest =>
    if s.same && s.oldLength > 2 * contextLines then
      (s.takeFront contextLines :: group).reverse ::
        divide [s.dropFront (s.oldLength - contextLines)] rest
    else divide (s :: group) rest

def hunks (edits : List Edit) : List (List Segment) :=
  divide [] (trimLast (trimFirst (segments {} edits)))

/-- Splits after every newline, and after a carriage return that no newline follows. -/
def splitEnds : Text → List Text
  | [] => []
  | '\r' :: '\n' :: rest => ['\r', '\n'] :: splitEnds rest
  | c :: rest =>
    if c = '\n' ∨ c = '\r' then [c] :: splitEnds rest
    else
      match splitEnds rest with
      | [] => [[c]]
      | line :: more => (c :: line) :: more

/-- A range of lines in a hunk's header: an empty one is named by the line before it. -/
def rangeText (start stop : Nat) : Text :=
  let length := stop - start
  if length = 1 then Text.ofNat (start + 1)
  else Text.ofNat (if length = 0 then start else start + 1) ++ ',' :: Text.ofNat length

def headerText (hunk : List Segment) : Text :=
  match hunk.head?, hunk.getLast? with
  | some first, some last =>
    "@@ -".toList ++ rangeText first.oldStart last.oldEnd ++ " +".toList ++
      rangeText first.newStart last.newEnd ++ " @@\n".toList
  | _, _ => []

/-- A line behind its mark. A line without an end gets one, and a note. -/
def lineText (mark : Char) (line : Text) : Text :=
  mark :: line ++
    if line.getLast? = some '\n' ∨ line.getLast? = some '\r' then []
    else "\n\\ No newline at end of file\n".toList

def linesText (mark : Char) (lines : Array Text) (start stop : Nat) : Text :=
  (lines.extract start stop).toList.flatMap (lineText mark)

def segmentText (s : Sides) (segment : Segment) : Text :=
  if segment.same then linesText ' ' s.old segment.oldStart segment.oldEnd
  else
    linesText '-' s.old segment.oldStart segment.oldEnd ++
      linesText '+' s.new segment.newStart segment.newEnd

/-- The unified diff of two texts; equal texts have none. -/
def unified? (old new : Text) (path : Text) : Option Text :=
  if old = new then none
  else
    let s : Sides := ⟨(splitEnds old).toArray, (splitEnds new).toArray⟩
    let body := (hunks (compact s (script s))).flatMap fun hunk =>
      headerText hunk ++ hunk.flatMap (segmentText s)
    some ("--- a/".toList ++ path ++ "\n+++ b/".toList ++ path ++ '\n' :: body)

end SkinLint.Diff
