import SkinLint.Diff.Edit

/-!
A shortest script of edits. Two searches, one from either end of the lines that differ, go forward
by one edit at a time until they meet; the script is made of what comes before and after that place.
-/
namespace SkinLint.Diff

/-- How far a search has come on each diagonal; diagonals count from `-offset`. -/
structure Reach where
  offset : Nat
  cells : Array Nat

namespace Reach

def start (offset : Nat) : Reach := ⟨offset, Array.replicate (2 * offset + 2) 0⟩

def get (r : Reach) (k : Int) : Nat := r.cells.getD (k + r.offset).toNat 0

def set (r : Reach) (k : Int) (x : Nat) : Reach :=
  { r with cells := r.cells.setIfInBounds (k + r.offset).toNat x }

/-- Where the search stands on diagonal `k` after `d` edits, before it follows equal lines. -/
def enter (r : Reach) (d k : Int) : Nat :=
  if k == -d || (k != d && r.get (k - 1) < r.get (k + 1)) then r.get (k + 1) else r.get (k - 1) + 1

end Reach

structure Search where
  forward : Reach
  backward : Reach

structure Window where
  oldStart : Nat
  oldStop : Nat
  newStart : Nat
  newStop : Nat

namespace Window

def oldLength (w : Window) : Nat := w.oldStop - w.oldStart

def newLength (w : Window) : Nat := w.newStop - w.newStart

def delta (w : Window) : Int := (w.oldLength : Int) - w.newLength

/-- More edits than a search from either end needs. -/
def rounds (w : Window) : Nat := (w.oldLength + w.newLength + 1) / 2 + 1

end Window

/-- The forward search with `d` edits on diagonals `k`, `k - 2` and so on, `count` of them. -/
def searchForward (s : Sides) (w : Window) (d : Nat) :
    Nat → Int → Search → Search × Option (Nat × Nat)
  | 0, _, search => (search, none)
  | count + 1, k, search =>
    let x := search.forward.enter d k
    let y : Int := x - k
    let far :=
      if x < w.oldLength ∧ 0 ≤ y ∧ y < w.newLength then
        x + s.matching (w.oldStart + x) (w.newStart + y.toNat)
          (min (w.oldLength - x) (w.newLength - y.toNat))
      else x
    let search := { search with forward := search.forward.set k far }
    if w.delta % 2 != 0 && (k - w.delta).natAbs + 1 ≤ d &&
        far + search.backward.get (w.delta - k) ≥ w.oldLength then
      (search, some (w.oldStart + x, w.newStart + y.toNat))
    else searchForward s w d count (k - 2) search

/-- The backward search with `d` edits on diagonals `k`, `k - 2` and so on, `count` of them. -/
def searchBackward (s : Sides) (w : Window) (d : Nat) :
    Nat → Int → Search → Search × Option (Nat × Nat)
  | 0, _, search => (search, none)
  | count + 1, k, search =>
    let x := search.backward.enter d k
    let y : Int := x - k
    let advance :=
      if x < w.oldLength ∧ 0 ≤ y ∧ y < w.newLength then
        s.matchingBefore (w.oldStop - x) (w.newStop - y.toNat)
          (min (w.oldLength - x) (w.newLength - y.toNat))
      else 0
    let far := x + advance
    let search := { search with backward := search.backward.set k far }
    if w.delta % 2 == 0 && (k - w.delta).natAbs ≤ d &&
        far + search.forward.get (w.delta - k) ≥ w.oldLength then
      (search, some (w.oldStop - far, w.newStop - (y + advance).toNat))
    else searchBackward s w d count (k - 2) search

/-- Rounds of both searches, from `d` edits on, until they meet. -/
def meet (s : Sides) (w : Window) : Nat → Nat → Search → Search × Option (Nat × Nat)
  | 0, _, search => (search, none)
  | rounds + 1, d, search =>
    match searchForward s w d (d + 1) d search with
    | (search, some place) => (search, some place)
    | (search, none) =>
      match searchBackward s w d (d + 1) d search with
      | (search, some place) => (search, some place)
      | (search, none) => meet s w rounds (d + 1) search

/-- Where to divide a window in which neither end has equal lines. -/
def middle (s : Sides) (w : Window) (search : Search) : Search × Option (Nat × Nat) :=
  meet s w w.rounds 0
    { forward := search.forward.set 1 0, backward := search.backward.set 1 0 }

/-- The edits of a window. Its parts are smaller than the window, so `fuel` is never used up when it
is the number of lines. -/
def conquer (s : Sides) : Nat → Window → Search → Search × List Edit
  | 0, _, search => (search, [])
  | fuel + 1, w, search =>
    let front := s.matching w.oldStart w.newStart (min w.oldLength w.newLength)
    let rest : Window := { w with oldStart := w.oldStart + front, newStart := w.newStart + front }
    let back := s.matchingBefore rest.oldStop rest.newStop (min rest.oldLength rest.newLength)
    let core : Window :=
      { rest with oldStop := rest.oldStop - back, newStop := rest.newStop - back }
    let (search, edits) :=
      if core.oldLength = 0 ∧ core.newLength = 0 then (search, [])
      else if core.newLength = 0 then
        (search, [Edit.delete core.oldStart core.oldLength core.newStart])
      else if core.oldLength = 0 then
        (search, [Edit.insert core.oldStart core.newStart core.newLength])
      else
        match middle s core search with
        | (search, some (x, y)) =>
          let (search, before) := conquer s fuel { core with oldStop := x, newStop := y } search
          let (search, after) := conquer s fuel { core with oldStart := x, newStart := y } search
          (search, before ++ after)
        | (search, none) =>
          (search, [Edit.delete core.oldStart core.oldLength core.newStart,
            Edit.insert core.oldStart core.newStart core.newLength])
    (search,
      (if front > 0 then [Edit.keep w.oldStart w.newStart front] else []) ++ edits ++
        if back > 0 then [Edit.keep core.oldStop core.newStop back] else [])

/-- The edits that turn the old lines into the new ones. -/
def script (s : Sides) : List Edit :=
  let w : Window := ⟨0, s.old.size, 0, s.new.size⟩
  (conquer s (s.old.size + s.new.size + 1) w ⟨.start w.rounds, .start w.rounds⟩).2

end SkinLint.Diff
