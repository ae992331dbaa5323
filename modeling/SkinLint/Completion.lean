import SkinLint.Completion.Catalogue
import SkinLint.Text.Basic

/-! Values offered for a key, as long as the line has none yet. -/
namespace SkinLint.Completion

structure Item where
  label : String
  documentation : Option String := none
deriving DecidableEq, Repr

def Values.items : Values → List Item
  | .plain labels => labels.map fun label => { label }
  | .documented entries =>
    entries.map fun (label, documentation) => { label, documentation := some documentation }
  | .numeric first step count =>
    (List.range count).map fun i => { label := toString (first + (step * i : Nat)) }

/-- Does the offer name the key, up to the case of ASCII letters? -/
def Offer.names (o : Offer) (key : Text) : Bool :=
  o.keys.any fun known => Text.eqIgnoreCase known.toList key

def complete (line : Text) : List Item :=
  match Text.splitFirst? '=' (Text.trim line) with
  | none => []
  | some (key, value) =>
    if !(Text.trim value).isEmpty then []
    else
      match catalogue.find? (·.names (Text.trim key)) with
      | none => []
      | some offer => offer.values.items

end SkinLint.Completion
