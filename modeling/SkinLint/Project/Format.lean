import SkinLint.Diff.Unified
import SkinLint.Layout
import SkinLint.Project.Check

/-! Bringing the files of a project into their layout, or telling which are not in it. -/
namespace SkinLint.Project

inductive FormatMode where
  /-- Tell which files would change. -/
  | check
  /-- Tell how they would change. -/
  | diff
  /-- Change them. -/
  | write
deriving DecidableEq, Repr

structure Change where
  target : Target
  source : Source
  formatted : Text
deriving DecidableEq, Repr

namespace Change

def diff? (c : Change) : Option Text :=
  Diff.unified? c.source.text c.formatted (Path.slashed c.target.display.components)

def contents (c : Change) : Bytes := c.source.encoding.encode c.formatted

end Change

def changeOf (t : FileTree) (target : Target) : Except SourceError (Option Change) :=
  (readSource t target.path).map fun source =>
    let formatted := Layout.format source.text
    if formatted = source.text then none else some ⟨target, source, formatted⟩

def changeOf? (t : FileTree) (target : Target) : Option Change :=
  match changeOf t target with
  | .ok change => change
  | .error _ => none

structure FormatReport where
  filesScanned : Nat
  /-- Displayed paths of files not in their layout, with differences if they were asked for. -/
  changes : List (Path × Option Text)
  skipped : List Skipped
deriving DecidableEq, Repr

/-- One if a file could not be read, else two if files would have to change. -/
def FormatReport.exitCode (r : FormatReport) (mode : FormatMode) : Nat :=
  if !r.skipped.isEmpty then 1
  else if mode = .check ∧ !r.changes.isEmpty then 2
  else 0

def writeAll : List Change → FileTree → Except Error FileTree
  | [], t => .ok t
  | c :: rest, t =>
    match t.replace c.target.path c.contents with
    | .error reason => .error (.unusable ⟨c.target.path, reason⟩)
    | .ok t => writeAll rest t

/-- Formats the files at the given paths; only in the mode `write` are files changed. -/
def format (s : Settings) (mode : FormatMode) (paths : List Path) (t : FileTree) :
    Except Error (FormatReport × FileTree) := do
  let found ← targets s.project t paths
  let changes := found.filterMap (changeOf? t)
  let report : FormatReport :=
    { filesScanned := found.length
      changes := changes.map fun c => (c.target.display, if mode = .diff then c.diff? else none)
      skipped := found.filterMap fun target => skipped? target (changeOf t target) }
  if mode = .write then return (report, ← writeAll changes t) else return (report, t)

end SkinLint.Project
