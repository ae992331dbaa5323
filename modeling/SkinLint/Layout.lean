import SkinLint.Document

/-!
The layout of a skin file. Lines lose the blanks at their ends, pairs the blanks around `=`; blank
lines go, but for one in front of every header that does not come first.
-/
namespace SkinLint.Layout

/-- A line in its own layout, or nothing for a blank line. -/
def laid? (t : Text) : Option Text :=
  match LineKind.classify t with
  | .blank => none
  | .keyValue key value => some (key ++ '=' :: value)
  | .inclusion key value => some (key ++ '=' :: value)
  | _ => some (Text.trim t)

def isHeader (t : Text) : Bool :=
  match LineKind.classify t with
  | .header _ => true
  | _ => false

/-- The lines written for one line; `first` when nothing stands above them. -/
def place (first : Bool) (t : Text) : List Text :=
  match laid? t with
  | none => []
  | some laid => if isHeader t && !first then [[], laid] else [laid]

def arrange : Bool → List Text → List Text
  | _, [] => []
  | first, t :: rest => place first t ++ arrange (first && (place first t).isEmpty) rest

def format (text : Text) : Text :=
  Text.joinWith ['\n'] (arrange true (Document.splitLines text)) ++ ['\n']

end SkinLint.Layout
