/-! White space: the 25 characters that carry the Unicode property `White_Space`. -/
namespace SkinLint

/-- Lines, names and values are lists of characters, so a column is a position in the list. -/
abbrev Text := List Char

namespace Text

def blanks : List Char :=
  [0x09, 0x0a, 0x0b, 0x0c, 0x0d, 0x20, 0x85, 0xa0, 0x1680, 0x2000, 0x2001, 0x2002, 0x2003, 0x2004,
   0x2005, 0x2006, 0x2007, 0x2008, 0x2009, 0x200a, 0x2028, 0x2029, 0x202f, 0x205f, 0x3000].map
    Char.ofNat

def isBlank (c : Char) : Bool := blanks.contains c

theorem isBlank_iff_mem (c : Char) : isBlank c = true ↔ c ∈ blanks := by
  simp [isBlank]

theorem isBlank_newline : isBlank '\n' = true := by decide

end Text

end SkinLint
