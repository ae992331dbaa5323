import SkinLint.Position
import SkinLint.Text.Basic

/-!
Lines of a skin file. Every line is of exactly one kind, and its kind depends on its trimmed text
alone.
-/
namespace SkinLint

inductive LineKind where
  | blank
  | comment
  /-- `[name]`; the name is not trimmed. -/
  | header (name : Text)
  /-- An opening bracket that the line never closes. -/
  | openHeader
  /-- An `@Include` key; key and value are trimmed. -/
  | inclusion (key value : Text)
  /-- Any other key; key and value are trimmed. -/
  | keyValue (key value : Text)
  | malformed
deriving DecidableEq, Repr

namespace LineKind

/-- The letters that mark an inclusion, whatever their case and whatever follows them. -/
def includeMark : Text := Text.ofString "@include"

def isIncludeKey (key : Text) : Bool :=
  Text.eqIgnoreCase (key.take includeMark.length) includeMark

/-- Key and value around the first `=`; there is no pair without a key. -/
def pair? (t : Text) : Option (Text × Text) :=
  match Text.splitFirst? '=' t with
  | none => none
  | some (key, value) =>
    if (Text.trim key).isEmpty then none else some (Text.trim key, Text.trim value)

/-- The kind of a line that has no blanks at its ends. -/
def ofTrimmed (t : Text) : LineKind :=
  match t with
  | [] => .blank
  | ';' :: _ => .comment
  | '[' :: rest => if rest.getLast? = some ']' then .header rest.dropLast else .openHeader
  | t =>
    match pair? t with
    | none => .malformed
    | some (key, value) => if isIncludeKey key then .inclusion key value else .keyValue key value

def classify (t : Text) : LineKind := ofTrimmed (Text.trim t)

end LineKind

structure Line where
  index : Nat
  text : Text
deriving DecidableEq, Repr

namespace Line

def kind (l : Line) : LineKind := LineKind.classify l.text

def trimmed (l : Line) : Text := Text.trim l.text

def width (l : Line) : Nat := l.text.length

def indent (l : Line) : Nat := l.text.length - (Text.trimStart l.text).length

def range (l : Line) : Range := Range.onLine l.index 0 l.width

end Line

end SkinLint
