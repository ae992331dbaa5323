import SkinLint.Project.Targets
import SkinLint.Report
import SkinLint.Validation

/-! Checking the files of a project. Each file is checked by itself. -/
namespace SkinLint.Project

def checkTarget (s : Settings) (t : FileTree) (target : Target) :
    Except SourceError (List Finding) :=
  (readSource t target.path).map fun source =>
    (Validation.validate s.validation s.meters t.contains target.path source.text).map
      (⟨target.display, ·⟩)

def findingsOf : Except SourceError (List Finding) → List Finding
  | .ok found => found
  | .error _ => []

def skipped? (target : Target) {α : Type} : Except SourceError α → Option Skipped
  | .ok _ => none
  | .error reason => some ⟨target.display, reason.message⟩

def check (s : Settings) (t : FileTree) (paths : List Path) : Except Error Report :=
  (targets s.project t paths).map fun found =>
    { filesScanned := found.length
      findings := found.flatMap fun target => findingsOf (checkTarget s t target)
      skipped := found.filterMap fun target => skipped? target (checkTarget s t target) }

end SkinLint.Project
