import SkinLint.Text.Basic

/-!
Slash-separated paths. A path keeps the text it was written with; what it denotes are its
components, and two paths are the same when their components are. A path is Unicode text here: the
names a file system may hold that are no such text are not covered.
-/
namespace SkinLint

structure Path where
  text : Text
deriving DecidableEq, Repr

/-- One step of a path. -/
inductive Component where
  | root
  /-- A dot, which counts only at the front of a relative path. -/
  | here
  /-- Two dots. -/
  | up
  | name (text : Text)
deriving DecidableEq, Repr

namespace Component

def text : Component → Text
  | .root => ['/']
  | .here => ['.']
  | .up => ['.', '.']
  | .name n => n

def rank : Component → Nat
  | .root => 0
  | .here => 1
  | .up => 2
  | .name _ => 3

def compare (a b : Component) : Ordering :=
  (Ord.compare a.rank b.rank).then
    (Ord.compare (a.text.map Char.toNat) (b.text.map Char.toNat))

/-- The component that a piece after the first stands for, if any. -/
def ofPiece? (piece : Text) : Option Component :=
  if piece = [] ∨ piece = ['.'] then none
  else if piece = ['.', '.'] then some .up
  else some (.name piece)

end Component

namespace Path

def ofString (s : String) : Path := ⟨s.toList⟩

def str (p : Path) : String := String.ofList p.text

def empty : Path := ⟨[]⟩

def isEmpty (p : Path) : Bool := p.text.isEmpty

def isAbsolute (p : Path) : Bool := p.text.head? == some '/'

def pieces (p : Path) : List Text := Text.splitOn '/' p.text

def components (p : Path) : List Component :=
  match p.pieces with
  | [] => []
  | first :: rest =>
    (if first = [] then (if rest.isEmpty then [] else [.root])
     else if first = ['.'] then [.here]
     else if first = ['.', '.'] then [.up]
     else [.name first]) ++ rest.filterMap Component.ofPiece?

/-- Sameness of paths, whatever the number of slashes between their components. -/
def same (p q : Path) : Bool := p.components == q.components

/-- `q` seen from `p`; an absolute `q` stays what it is. -/
def join (p q : Path) : Path :=
  if q.isAbsolute then q
  else if p.isEmpty || p.text.getLast? = some '/' then ⟨p.text ++ q.text⟩
  else ⟨p.text ++ '/' :: q.text⟩

/-- The pieces without those at the end that denote nothing. -/
def dropIdle (pieces : List Text) : List Text :=
  (pieces.reverse.dropWhile fun piece => (Component.ofPiece? piece).isNone).reverse

/-- The path without its last component. The root and the empty path have no parent. -/
def parent? (p : Path) : Option Path :=
  match p.pieces with
  | [] => none
  | first :: rest =>
    match dropIdle rest with
    | [] => if first.isEmpty then none else some .empty
    | kept =>
      let above := dropIdle kept.dropLast
      if first.isEmpty && above.isEmpty then some ⟨['/']⟩
      else some ⟨Text.joinWith ['/'] (first :: above)⟩

def directory (p : Path) : Path := p.parent?.getD .empty

/-- A path, its parent, and so on, for at most `fuel` steps. -/
def ancestorsWithin : Nat → Path → List Path
  | 0, p => [p]
  | fuel + 1, p =>
    match p.parent? with
    | none => [p]
    | some q => p :: ancestorsWithin fuel q

/-- The path and all that lie above it, nearest first. A parent is shorter than its child, so the
length of the text bounds their number. -/
def ancestors (p : Path) : List Path := ancestorsWithin p.text.length p

def fileName? (p : Path) : Option Text :=
  match p.components.getLast? with
  | some (.name n) => some n
  | _ => none

/-- What follows the last dot of the file name, unless that dot is its first character. -/
def extension? (p : Path) : Option Text :=
  match p.fileName? with
  | none => none
  | some n =>
    match Text.splitLast? '.' n with
    | some (_ :: _, extension) => some extension
    | _ => none

def below? (base p : Path) : Option (List Component) :=
  if base.components.isPrefixOf p.components then some (p.components.drop base.components.length)
  else none

/-- One component on a stack of names, its top first: `..` takes a name away. -/
def pushComponent (stack : List Text) : Component → List Text
  | .up => stack.tail
  | .name n => n :: stack
  | _ => stack

/-- The names left after each `..` has cancelled the name before it, if there is one. -/
def normalNames (cs : List Component) : List Text := (cs.foldl pushComponent []).reverse

def normalize (p : Path) : Path :=
  let body := Text.joinWith ['/'] (normalNames p.components)
  if p.isAbsolute then ⟨'/' :: body⟩ else ⟨body⟩

/-- The normal form, with `.` for the empty path. -/
def clean (p : Path) : Path := if p.normalize.isEmpty then ⟨['.']⟩ else p.normalize

/-- `p` seen from `base`, if that is absolute or relative to the same place. -/
def absoluteFrom (base p : Path) : Path := if p.isAbsolute then p else base.join p

/-- The components with a slash between each two; a root counts as a component. -/
def slashed (cs : List Component) : Text := Text.joinWith ['/'] (cs.map Component.text)

/-- A directory's text, closed by a slash when asked for. -/
def directoryText (closed : Bool) (p : Path) : Text :=
  if closed && p.text.getLast? != some '/' then p.text ++ ['/'] else p.text

/-- Order by components. -/
def compare (p q : Path) : Ordering :=
  List.compareLex Component.compare p.components q.components

def le (p q : Path) : Bool := (p.compare q).isLE

end Path

end SkinLint
