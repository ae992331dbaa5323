import SkinLint.Text.Blank

/-! Trimming, splitting and comparing text. -/
namespace SkinLint.Text

abbrev ofString (s : String) : Text := s.toList

abbrev str (t : Text) : String := String.ofList t

def trimStart (t : Text) : Text := t.dropWhile isBlank

def trimEnd (t : Text) : Text := (t.reverse.dropWhile isBlank).reverse

def trim (t : Text) : Text := trimEnd (trimStart t)

def isBlankText (t : Text) : Bool := t.all isBlank

/-- The pieces between the separators: one more than there are separators. -/
def splitOn (sep : Char) : Text → List Text
  | [] => [[]]
  | c :: cs =>
    if c = sep then [] :: splitOn sep cs
    else
      match splitOn sep cs with
      | [] => [[c]]
      | piece :: rest => (c :: piece) :: rest

def joinWith (sep : Text) : List Text → Text
  | [] => []
  | [piece] => piece
  | piece :: rest => piece ++ sep ++ joinWith sep rest

/-- What stands before and after the first occurrence of `sep`. -/
def splitFirst? (sep : Char) (t : Text) : Option (Text × Text) :=
  match t.dropWhile (· != sep) with
  | [] => none
  | _ :: after => some (t.takeWhile (· != sep), after)

/-- What stands before and after the last occurrence of `sep`. -/
def splitLast? (sep : Char) (t : Text) : Option (Text × Text) :=
  (splitFirst? sep t.reverse).map fun (after, before) => (before.reverse, after.reverse)

/-- The rest of `t` after `p`, if `t` starts with `p`. -/
def dropPrefix? : Text → Text → Option Text
  | t, [] => some t
  | [], _ :: _ => none
  | c :: t, d :: p => if c = d then dropPrefix? t p else none

theorem dropPrefix?_eq_some_iff (t p rest : Text) :
    dropPrefix? t p = some rest ↔ t = p ++ rest := by
  induction p generalizing t with
  | nil => simp [dropPrefix?]
  | cons d p ih =>
    cases t with
    | nil => simp [dropPrefix?]
    | cons c t =>
      by_cases h : c = d
      · simp [dropPrefix?, h, ih]
      · simp [dropPrefix?, h]

/-- Upper-case ASCII letters become lower case and nothing else changes. -/
def lowerAscii (c : Char) : Char :=
  if 'A' ≤ c ∧ c ≤ 'Z' then Char.ofNat (c.toNat + 32) else c

/-- Equality up to the case of ASCII letters. -/
def eqIgnoreCase (s t : Text) : Bool := s.map lowerAscii == t.map lowerAscii

theorem eqIgnoreCase_iff (s t : Text) :
    eqIgnoreCase s t = true ↔ s.map lowerAscii = t.map lowerAscii := by
  simp [eqIgnoreCase]

theorem eqIgnoreCase_refl (t : Text) : eqIgnoreCase t t = true := by
  simp [eqIgnoreCase]

/-- Replacement in a text of which the first `skip` characters belong to an occurrence already
replaced. -/
def replaceFrom (old new : Text) : Nat → Text → Text
  | _, [] => []
  | skip + 1, _ :: t => replaceFrom old new skip t
  | 0, c :: t =>
    if old.isPrefixOf (c :: t) then new ++ replaceFrom old new (old.length - 1) t
    else c :: replaceFrom old new 0 t

/-- Every occurrence of `old`, read from left to right without overlap, becomes `new`. -/
def replaceAll (old new t : Text) : Text := replaceFrom old new 0 t

def ofNat (n : Nat) : Text := (toString n).toList

def isAsciiDigit (c : Char) : Bool := '0' ≤ c && c ≤ '9'

def isAsciiAlphanumeric (c : Char) : Bool :=
  isAsciiDigit c || ('a' ≤ c && c ≤ 'z') || ('A' ≤ c && c ≤ 'Z')

/-- The number written by ASCII digits, if the text is nonempty and has no other character. -/
def decimal? (t : Text) : Option Nat :=
  if t.isEmpty || !t.all isAsciiDigit then none
  else some (t.foldl (fun n c => n * 10 + (c.toNat - '0'.toNat)) 0)

end SkinLint.Text
