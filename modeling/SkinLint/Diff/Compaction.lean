import SkinLint.Diff.Edit

/-!
Moving edits together. An insertion slides over equal lines as long as its text allows, deletions
and insertions pass each other, and runs of one action merge.
-/
namespace SkinLint.Diff

/-- An edit between those before it, the nearest first, and those after it. -/
structure Cursor where
  before : List Edit
  this : Edit
  after : List Edit

def keepInFront (oldStart newStart n : Nat) : List Edit → List Edit
  | e :: rest =>
    if e.action = .keep then (e.up n).grow n :: rest else Edit.keep oldStart newStart n :: e :: rest
  | [] => [Edit.keep oldStart newStart n]

/-- Kept lines behind some edits, which are in reverse order. -/
def keepBehind (oldStart newStart n : Nat) : List Edit → List Edit
  | e :: rest =>
    if e.action = .keep then e.grow n :: rest else Edit.keep oldStart newStart n :: e :: rest
  | [] => [Edit.keep oldStart newStart n]

def consFilled (e : Edit) (rest : List Edit) : List Edit := if e.isEmpty then rest else e :: rest

/-- Moves an edit towards the front, at most `fuel` steps. -/
def moveUp (s : Sides) : Nat → Cursor → Cursor
  | 0, c => c
  | fuel + 1, c =>
    match c.before with
    | [] => c
    | prev :: before =>
      if prev.action = .keep then
        let n := s.matchingBefore prev.oldEnd c.this.newEnd (min prev.oldLength c.this.newLength)
        if n > 0 then
          moveUp s fuel
            { before := consFilled (prev.shrink n) before
              this := c.this.up n
              after := keepInFront (prev.oldEnd - n) (c.this.newEnd - n) n c.after }
        else if prev.isEmpty then moveUp s fuel { c with before }
        else c
      else if prev.action = c.this.action then
        moveUp s fuel
          { c with before, this := prev.grow (max c.this.oldLength c.this.newLength) }
      else moveUp s fuel { c with before, after := prev :: c.after }

/-- Moves an edit towards the end, at most `fuel` steps. -/
def moveDown (s : Sides) : Nat → Cursor → Cursor
  | 0, c => c
  | fuel + 1, c =>
    match c.after with
    | [] => c
    | next :: after =>
      if next.action = .keep then
        let n := s.matching next.oldStart c.this.newStart (min next.oldLength c.this.newLength)
        if n > 0 then
          moveDown s fuel
            { before := keepBehind next.oldStart c.this.newStart n c.before
              this := c.this.down n
              after := consFilled ((next.down n).shrink n) after }
        else if next.isEmpty then moveDown s fuel { c with after }
        else c
      else if next.action = c.this.action then
        moveDown s fuel
          { c with this := c.this.grow (max next.oldLength next.newLength), after }
      else moveDown s fuel { c with before := next :: c.before, after }

/-- Moves every edit of one action up and then down. -/
def settle (s : Sides) (action : Action) (steps : Nat) : Nat → List Edit → List Edit → List Edit
  | 0, before, after => before.reverse ++ after
  | _, before, [] => before.reverse
  | fuel + 1, before, e :: after =>
    if e.action = action then
      let c := moveDown s steps (moveUp s steps ⟨before, e, after⟩)
      settle s action steps fuel (c.this :: c.before) c.after
    else settle s action steps fuel (e :: before) after

/-- The edits with deletions settled, then insertions. Every move passes a line or an edit, which
bounds their number. -/
def compact (s : Sides) (edits : List Edit) : List Edit :=
  let size := s.old.size + s.new.size + edits.length + 1
  settle s .insert (4 * size) (size * size) []
    (settle s .delete (4 * size) (size * size) [] edits)

end SkinLint.Diff
