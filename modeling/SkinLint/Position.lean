/-! Places in a document: lines and columns both count from zero, columns in characters. -/
namespace SkinLint

structure Position where
  line : Nat
  character : Nat
deriving DecidableEq, Repr

namespace Position

/-- Reading order: earlier lines first, then earlier columns. -/
def le (a b : Position) : Bool :=
  a.line < b.line || (a.line == b.line && a.character ≤ b.character)

theorem le_refl (a : Position) : a.le a = true := by
  simp [le]

theorem le_trans {a b c : Position} (hab : a.le b = true) (hbc : b.le c = true) :
    a.le c = true := by
  simp [le] at *
  omega

theorem le_total (a b : Position) : (a.le b || b.le a) = true := by
  simp [le]
  omega

end Position

structure Range where
  start : Position
  stop : Position
deriving DecidableEq, Repr

namespace Range

/-- Columns `start` up to `stop` of one line; a `stop` before `start` gives the empty range. -/
def onLine (line start stop : Nat) : Range :=
  ⟨⟨line, start⟩, ⟨line, max stop start⟩⟩

def documentStart : Range := ⟨⟨0, 0⟩, ⟨0, 0⟩⟩

theorem onLine_start (line start stop : Nat) : (onLine line start stop).start = ⟨line, start⟩ := rfl

theorem onLine_stop_of_le {start stop : Nat} (line : Nat) (h : start ≤ stop) :
    (onLine line start stop).stop = ⟨line, stop⟩ := by
  simp [onLine, Nat.max_eq_left h]

end Range

end SkinLint
