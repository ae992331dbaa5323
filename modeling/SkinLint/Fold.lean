import SkinLint.Document
import SkinLint.Text.Word

/-! Parts of a document that can be folded: sections, and regions between two markers. -/
namespace SkinLint.Fold

inductive Kind where
  | sectionFold
  | region
deriving DecidableEq, Repr

def Kind.name : Kind → String
  | .sectionFold => "section"
  | .region => "region"

/-- Lines `start` to `stop`, both included. -/
structure Span where
  start : Nat
  stop : Nat
  kind : Kind
deriving DecidableEq, Repr

/-- A trimmed line `[name]` with a name free of `]`, and at most a comment behind it. -/
def isHeader : Text → Bool
  | '[' :: rest =>
    !(rest.takeWhile (· != ']')).isEmpty &&
      match rest.dropWhile (· != ']') with
      | [] => false
      | _ :: after =>
        match Text.trimStart after with
        | [] => true
        | c :: _ => c == ';'
  | _ => false

/-- A trimmed comment that starts with a tag, which stands there as a whole word. -/
def isMarker (tag : Text) : Text → Bool
  | ';' :: rest =>
    match Text.dropPrefix? (Text.trimStart rest) tag with
    | some after => !Text.startsWord after
    | none => false
  | _ => false

def opensRegion (t : Text) : Bool := isMarker "#region".toList t

def closesRegion (t : Text) : Bool := isMarker "#endregion".toList t

/-- Number of the last line that is not blank among lines numbered from `index`. -/
def lastFilled? : Nat → List Text → Option Nat
  | _, [] => none
  | index, t :: rest =>
    (lastFilled? (index + 1) rest).or (if (Text.trim t).isEmpty then none else some index)

def sections : Nat → List Text → List Span
  | _, [] => []
  | index, t :: rest =>
    (if isHeader (Text.trim t) then
      match lastFilled? (index + 1) (rest.takeWhile fun u => !isHeader (Text.trim u)) with
      | some stop => [⟨index, stop, .sectionFold⟩]
      | none => []
     else []) ++ sections (index + 1) rest

/-- The regions that end among lines numbered from `index`, where `pending` are the regions begun
before, the latest first. -/
def regions : Nat → List Nat → List Text → List Span
  | _, _, [] => []
  | index, pending, t :: rest =>
    if opensRegion (Text.trim t) then regions (index + 1) (index :: pending) rest
    else if closesRegion (Text.trim t) then
      match pending with
      | [] => regions (index + 1) [] rest
      | start :: pending => ⟨start, index, .region⟩ :: regions (index + 1) pending rest
    else regions (index + 1) pending rest

/-- Sections first, then regions in the order of their ends. -/
def spans (text : Text) : List Span :=
  sections 0 (Document.splitLines text) ++ regions 0 [] (Document.splitLines text)

end SkinLint.Fold
