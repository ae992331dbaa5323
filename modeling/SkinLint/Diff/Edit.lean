import SkinLint.Text.Basic

/-! Edits between two sequences of lines: runs of lines kept, deleted or inserted. -/
namespace SkinLint.Diff

inductive Action where
  | keep
  | delete
  | insert
deriving DecidableEq, Repr

/-- A run of lines, by its place and length on either side. -/
structure Edit where
  action : Action
  oldStart : Nat
  oldLength : Nat
  newStart : Nat
  newLength : Nat
deriving DecidableEq, Repr

namespace Edit

def keep (oldStart newStart length : Nat) : Edit := ⟨.keep, oldStart, length, newStart, length⟩

def delete (oldStart length newStart : Nat) : Edit := ⟨.delete, oldStart, length, newStart, 0⟩

def insert (oldStart newStart length : Nat) : Edit := ⟨.insert, oldStart, 0, newStart, length⟩

def oldEnd (e : Edit) : Nat := e.oldStart + e.oldLength

def newEnd (e : Edit) : Nat := e.newStart + e.newLength

def isEmpty (e : Edit) : Bool := e.oldLength == 0 && e.newLength == 0

def grow (n : Nat) (e : Edit) : Edit :=
  match e.action with
  | .keep => { e with oldLength := e.oldLength + n, newLength := e.newLength + n }
  | .delete => { e with oldLength := e.oldLength + n }
  | .insert => { e with newLength := e.newLength + n }

def shrink (n : Nat) (e : Edit) : Edit :=
  match e.action with
  | .keep => { e with oldLength := e.oldLength - n, newLength := e.newLength - n }
  | .delete => { e with oldLength := e.oldLength - n }
  | .insert => { e with newLength := e.newLength - n }

/-- The same run, earlier. -/
def up (n : Nat) (e : Edit) : Edit :=
  { e with oldStart := e.oldStart - n, newStart := e.newStart - n }

/-- The same run, later. -/
def down (n : Nat) (e : Edit) : Edit :=
  { e with oldStart := e.oldStart + n, newStart := e.newStart + n }

end Edit

structure Sides where
  old : Array Text
  new : Array Text

namespace Sides

/-- Number of equal lines from `i` and `j` on, at most `limit`. -/
def matching (s : Sides) (i j : Nat) : Nat → Nat
  | 0 => 0
  | limit + 1 =>
    match s.old[i]?, s.new[j]? with
    | some a, some b => if a == b then s.matching (i + 1) (j + 1) limit + 1 else 0
    | _, _ => 0

/-- Number of equal lines before `i` and `j`, at most `limit`. -/
def matchingBefore (s : Sides) : Nat → Nat → Nat → Nat
  | i + 1, j + 1, limit + 1 =>
    match s.old[i]?, s.new[j]? with
    | some a, some b => if a == b then s.matchingBefore i j limit + 1 else 0
    | _, _ => 0
  | _, _, _ => 0

end Sides

end SkinLint.Diff
