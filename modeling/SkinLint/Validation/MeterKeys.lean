import SkinLint.Diagnostic
import SkinLint.Document
import SkinLint.Meter.Suggestion
import SkinLint.Validation.Sections

/-!
Keys of meters. A meter's keys are checked from the line that declares its kind to the next header.
-/
namespace SkinLint.Validation

/-- Where in a document the check for one kind of meter stands. -/
inductive Block where
  | outside
  | inSection (name : Text)
  | inMeter (name : Text)
deriving DecidableEq, Repr

def Block.section? : Block → Option Text
  | .outside => none
  | .inSection name => some name
  | .inMeter name => some name

/-- Is the trimmed line the declaration of a meter, with no blanks inside? -/
def declares (m : Meter) (trimmed : Text) : Bool :=
  Text.eqIgnoreCase trimmed ("meter=".toList ++ m.display.toList)

def meterKeyBreaches (m : Meter) (keys : List Text) (name : Text) (l : Line) (key value : Text) :
    List Breach :=
  if Meter.isNumbered key then
    if value.isEmpty then
      [⟨.emptyNumberedKey, keyRange l key,
        s!"Key '{Text.str key}' in [{Text.str name}] must have a value."⟩]
    else []
  else if Meter.allows keys key then []
  else
    let listing (keys : List Text) := ", ".intercalate (keys.map Text.str)
    let hint :=
      match Meter.suggestion? keys key with
      | some candidate => s!" Did you mean '{Text.str candidate}'?"
      | none => ""
    [⟨.invalidMeterKey, keyRange l key,
      s!"Invalid key '{Text.str key}' in [{Text.str name}]. Valid keys for {m.display} are: " ++
        s!"{listing keys} (shared keys: {listing Meter.sharedKeys})." ++ hint⟩]

def meterStep (m : Meter) (keys : List Text) (block : Block) (l : Line) : Block × List Breach :=
  match l.kind with
  | .header name => (.inSection (Text.trim name), [])
  | .keyValue key value =>
    match block.section? with
    | none => (block, [])
    | some name =>
      if declares m l.trimmed then (.inMeter name, [])
      else
        match block with
        | .inMeter _ => (block, meterKeyBreaches m keys name l key value)
        | _ => (block, [])
  | _ => (block, [])

/-- The check for one kind of meter over the lines of a document. -/
def meterBreaches (m : Meter) (keys : List Text) : Block → List Line → List Breach
  | _, [] => []
  | block, l :: rest =>
    (meterStep m keys block l).2 ++ meterBreaches m keys (meterStep m keys block l).1 rest

end SkinLint.Validation
