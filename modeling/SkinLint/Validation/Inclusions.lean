import SkinLint.Diagnostic
import SkinLint.Document
import SkinLint.PathVariables

/-!
Inclusions of other files. Only the document itself is looked at: an included file must exist and
may be named once.
-/
namespace SkinLint.Validation

structure InclusionContext where
  directory : Path
  pathVariables : PathVariables
  present : Path → Bool

/-- The path in the value of an inclusion. -/
def includedText (value : Text) : Text := Text.trim (value.filter (· != '"'))

/-- The file that an expanded path means. -/
def target (directory : Path) (expanded : Text) : Path :=
  (directory.absoluteFrom ⟨expanded⟩).normalize

def valueStart (l : Line) : Nat :=
  match Text.splitFirst? '=' l.text with
  | some (before, _) => before.length + 1
  | none => l.indent

def valueRange (l : Line) : Range := Range.onLine l.index (valueStart l) l.width

def checkInclusion (c : InclusionContext) (included : List Path) (l : Line) (value : Text) :
    List Path × List Breach :=
  let raw := includedText value
  let expanded := c.pathVariables.expand raw
  if PathVariables.hasVariable expanded then
    (included,
     [⟨.unsupportedVariable, valueRange l,
       s!"Path contains unsupported macros: {Text.str raw}. Macros remain unresolved."⟩])
  else
    let file := target c.directory expanded
    if raw.isEmpty || !c.present file then
      (included,
       [⟨.includeNotFound, valueRange l,
         s!"Included file not found: {Text.str raw} (Resolved: {file.str}). " ++
           "Ensure the macro resolves to a valid file path."⟩])
    else if included.contains file then
      (included,
       [⟨.circularInclude, l.range,
         s!"Circular include detected for file: {Text.str raw} (Resolved: {file.str})."⟩])
    else (file :: included, [])

end SkinLint.Validation
