import SkinLint.Line

/-! A document is its text, read as numbered lines. -/
namespace SkinLint.Document

/-- The byte order mark as a character. -/
def mark : Char := Char.ofNat 0xfeff

/-- The text without one leading byte order mark. -/
def dropMark : Text → Text
  | [] => []
  | c :: t => if c = mark then t else c :: t

/-- A line without the carriage return at its end, if it has one there. -/
def dropReturn (t : Text) : Text := if t.getLast? = some '\r' then t.dropLast else t

/-- The lines of a text. A newline at the end is followed by one more, empty line. -/
def splitLines (t : Text) : List Text := (Text.splitOn '\n' t).map dropReturn

def lines (t : Text) : List Line := (splitLines t).zipIdx.map fun (text, index) => ⟨index, text⟩

end SkinLint.Document
