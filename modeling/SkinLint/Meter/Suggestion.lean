import SkinLint.Meter.Keys
import SkinLint.Text.Lower

/-! The key that was probably meant: the one most like the key that was written. -/
namespace SkinLint.Meter

/-- The next row of the edit distance table: entry `j` of `row` is the distance of what was read
so far to the first `j` characters of `t`. -/
def nextRow (c : Char) (t : Text) (row : List Nat) : List Nat :=
  match row with
  | [] => []
  | corner :: rest => (corner + 1) :: go (corner + 1) corner t rest
where
  go (left corner : Nat) : Text → List Nat → List Nat
    | d :: t, above :: rest =>
      let cell := min (min (left + 1) (above + 1)) (corner + if c = d then 0 else 1)
      cell :: go cell above t rest
    | _, _ => []

/-- The least number of insertions, removals and changes of one character that turn `s` into
`t`. -/
def editDistance (s t : Text) : Nat :=
  (s.foldl (fun row c => nextRow c t row) (List.range (t.length + 1))).getLast?.getD 0

/-- How unlike two keys are: `edits` of `length` characters. -/
structure Unlikeness where
  edits : Nat
  length : Nat

namespace Unlikeness

def between (s t : Text) : Unlikeness := ⟨editDistance s t, max s.length t.length⟩

/-- At most three characters in ten differ. -/
def close (u : Unlikeness) : Bool := 10 * u.edits ≤ 3 * u.length

/-- `u` is no greater a part than `v`. -/
def le (u v : Unlikeness) : Bool := u.edits * v.length ≤ v.edits * u.length

end Unlikeness

/-- The later of two candidates, unless the earlier is more like the key. -/
def better (key : Text) (best : Option Text) (candidate : Text) : Option Text :=
  let unlikeness (t : Text) := Unlikeness.between (Text.lower key) (Text.lower t)
  if !(unlikeness candidate).close then best
  else
    match best with
    | none => some candidate
    | some other => if (unlikeness candidate).le (unlikeness other) then some candidate else best

/-- The last of the keys most like the one given, if it is close enough. -/
def suggestion? (keys : List Text) (key : Text) : Option Text :=
  (keys ++ sharedKeys).foldl (better key) none

end SkinLint.Meter
