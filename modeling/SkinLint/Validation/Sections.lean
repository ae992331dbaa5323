import SkinLint.Diagnostic
import SkinLint.Document
import SkinLint.Settings
import SkinLint.Text.Lower

/-!
Section headers and keys. Names are compared by their identity, and the keys of a section are
forgotten when the next header is met.
-/
namespace SkinLint.Validation

structure Sections where
  /-- Identities of all section names so far. -/
  seen : List Text := []
  /-- Name of the open section. -/
  current : Option Text := none
  /-- Identities of the keys of the open section. -/
  keys : List Text := []
  hasRainmeter : Bool := false
  hasVariables : Bool := false
deriving DecidableEq, Repr

/-- What a name is compared by. -/
def identity (s : ValidationSettings) (name : Text) : Text :=
  if s.caseSensitiveNames then name else Text.lower name

def isPermittedChar (c : Char) : Bool := Text.isAsciiAlphanumeric c || c == '_' || c == '-'

/-- The trimmed name inside the brackets of a header. -/
def nameRange (l : Line) (raw : Text) : Range :=
  let start := l.indent + 1 + (raw.length - (Text.trimStart raw).length)
  Range.onLine l.index start (start + (Text.trim raw).length)

def keyRange (l : Line) (key : Text) : Range :=
  Range.onLine l.index l.indent (l.indent + key.length)

def isRainmeter (name : Text) : Bool := Text.eqIgnoreCase name "rainmeter".toList

def isVariables (name : Text) : Bool := Text.eqIgnoreCase name "variables".toList

def headerBreaches (s : ValidationSettings) (seen : List Text) (l : Line) (raw : Text) :
    List Breach :=
  let name := Text.trim raw
  (if name.length > s.maxSectionNameLength then
    [⟨.sectionNameLength, nameRange l raw,
      s!"Section name is too long. Maximum allowed length is {s.maxSectionNameLength} characters."⟩]
   else []) ++
  (if s.strictSectionNames && !name.all isPermittedChar then
    [⟨.sectionNameChars, nameRange l raw,
      "Section header contains invalid characters. " ++
        "Only alphanumeric, underscores, and hyphens are allowed."⟩]
   else []) ++
  (if seen.contains (identity s name) then
    [⟨.duplicateSection, nameRange l raw, s!"Duplicate section header: [{Text.str name}]."⟩]
   else [])

def Sections.openSection (s : ValidationSettings) (state : Sections) (l : Line) (raw : Text) :
    Sections × List Breach :=
  let name := Text.trim raw
  if name.isEmpty then
    ({ state with current := some [], keys := [] },
     [⟨.emptySectionName,
       Range.onLine l.index l.indent (l.indent + l.trimmed.length),
       "Section name cannot be empty."⟩])
  else
    ({ seen := identity s name :: state.seen
       current := some name
       keys := []
       hasRainmeter := state.hasRainmeter || isRainmeter name
       hasVariables := state.hasVariables || isVariables name },
     headerBreaches s state.seen l raw)

/-- Where a repeated key is said to stand. -/
def duplicateKeyMessage (key : Text) : Option Text → String
  | some section_ => s!"Duplicate key '{Text.str key}' found in section [{Text.str section_}]."
  | none => s!"Duplicate key '{Text.str key}' found before any section."

def Sections.recordKey (s : ValidationSettings) (state : Sections) (l : Line) (key : Text) :
    Sections × List Breach :=
  if state.keys.contains (identity s key) then
    (state, [⟨.duplicateKey, keyRange l key, duplicateKeyMessage key state.current⟩])
  else ({ state with keys := identity s key :: state.keys }, [])

def Sections.missing (state : Sections) : List Breach :=
  (if state.hasRainmeter then []
   else [⟨.missingRainmeter, Range.documentStart, "Missing required section: [Rainmeter]."⟩]) ++
  (if state.hasVariables then []
   else [⟨.missingVariables, Range.documentStart, "Missing recommended section: [Variables]."⟩])

end SkinLint.Validation
