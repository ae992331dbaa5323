import SkinLint.Validation.Inclusions
import SkinLint.Validation.MeterKeys
import SkinLint.Validation.Sections

/-!
Validation of a document. One pass looks at sections, keys and inclusions, one pass for each kind of
meter looks at its keys; what they find comes out in reading order, and a finding's level is applied
to it only after it was made.
-/
namespace SkinLint.Validation

structure State where
  sections : Sections := {}
  included : List Path := []

def malformedMessage : String := "Key-value pair is malformed. Ensure the format is 'Key=Value'."

def unterminatedMessage : String := "Section header must end with ']'."

def step (s : ValidationSettings) (c : InclusionContext) (state : State) (l : Line) :
    State × List Breach :=
  match l.kind with
  | .blank | .comment => (state, [])
  | .header name =>
    let (sections, found) := state.sections.openSection s l name
    ({ state with sections }, found)
  | .openHeader => (state, [⟨.unterminatedSection, l.range, unterminatedMessage⟩])
  | .inclusion _ value =>
    let (included, found) := checkInclusion c state.included l value
    ({ state with included }, found)
  | .keyValue key _ =>
    let (sections, found) := state.sections.recordKey s l key
    ({ state with sections }, found)
  | .malformed => (state, [⟨.malformedKeyValue, l.range, malformedMessage⟩])

def run (s : ValidationSettings) (c : InclusionContext) (state : State) : List Line → State
  | [] => state
  | l :: rest => run s c (step s c state l).1 rest

def lineBreaches (s : ValidationSettings) (c : InclusionContext) : State → List Line → List Breach
  | _, [] => []
  | state, l :: rest => (step s c state l).2 ++ lineBreaches s c (step s c state l).1 rest

/-- The surroundings of a document that its validation depends on. -/
def context (s : ValidationSettings) (present : Path → Bool) (document : Path) : InclusionContext :=
  { directory := document.directory
    pathVariables := PathVariables.build s present document
    present }

def breaches (s : ValidationSettings) (m : MeterSettings) (c : InclusionContext)
    (lines : List Line) : List Breach :=
  lineBreaches s c {} lines ++ (run s c {} lines).sections.missing ++
    Meter.all.flatMap fun meter =>
      meterBreaches meter (meter.keysWith (m.extraKeysFor meter)) .outside lines

/-- In reading order; findings at one place keep the order in which they were made. -/
def inOrder (found : List Diagnostic) : List Diagnostic :=
  found.mergeSort fun a b => a.range.start.le b.range.start

/-- The diagnostics of a document at a path, given which paths exist. -/
def validate (s : ValidationSettings) (m : MeterSettings) (present : Path → Bool) (document : Path)
    (text : Text) : List Diagnostic :=
  inOrder ((breaches s m (context s present document)
    (Document.lines (Document.dropMark text))).filterMap (Breach.diagnostic? s.level))

end SkinLint.Validation
