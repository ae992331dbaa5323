import SkinLint.Config.Basic
import SkinLint.Encoding.Source

/-!
The files that an operation works on: those named, and below folders those in scope. They come out
in the order of their displayed paths, each once.
-/
namespace SkinLint.Project

inductive SourceError where
  | file (reason : FileError)
  | encoding (reason : DecodeError)
deriving DecidableEq, Repr

def SourceError.message : SourceError → String
  | .file reason => reason.message
  | .encoding reason => reason.message

inductive Error where
  | unusable (failure : FileFailure)
  | pathNotFound (path : Path)
deriving DecidableEq, Repr

def Error.message : Error → String
  | .unusable failure => failure.message
  | .pathNotFound path => s!"path not found: {path.str}"

def readSource (t : FileTree) (p : Path) : Except SourceError Source :=
  match t.read p with
  | .error reason => .error (.file reason)
  | .ok bytes =>
    match Source.decode bytes with
    | .error reason => .error (.encoding reason)
    | .ok source => .ok source

structure Target where
  path : Path
  /-- The path that reports show. -/
  display : Path
deriving DecidableEq, Repr

/-- A file is shown by its path below the root, if it is there. -/
def Target.of (root path : Path) : Target :=
  ⟨path, match Path.below? root path with
    | some below => ⟨Path.slashed below⟩
    | none => path⟩

/-- Where to look for files: at the given paths, seen from the root, or at the root. -/
def startingPoints (root : Path) (paths : List Path) : List Path :=
  if paths.isEmpty then [root.clean] else paths.map fun p => (root.absoluteFrom p).clean

def walk (t : FileTree) (folder : Path) : List Path :=
  match t.locate folder with
  | .error _ => []
  | .ok names =>
    ((t.filesBelow names).map fun below => folder.join ⟨Text.joinWith ['/'] below⟩).mergeSort
      Path.le

/-- The targets at one starting point: a file by itself, or the files in scope below a folder. -/
def targetsAt (project : ProjectSettings) (t : FileTree) (start : Path) :
    Except Error (List Target) :=
  let target := Target.of project.root.clean
  if t.isFile start then .ok [target start]
  else if t.isFolder start then
    .ok (((walk t start).map target).filter fun found => project.inScope found.display)
  else .error (.pathNotFound start)

/-- Leaves out targets with the same path as the one before. -/
def dropRepeats (last : Option Path) : List Target → List Target
  | [] => []
  | target :: rest =>
    if (last.map target.path.same).getD false then dropRepeats last rest
    else target :: dropRepeats (some target.path) rest

def inOrder (targets : List Target) : List Target :=
  targets.mergeSort fun a b => a.display.le b.display

def targets (project : ProjectSettings) (t : FileTree) (paths : List Path) :
    Except Error (List Target) :=
  match (startingPoints project.root paths).mapM (targetsAt project t) with
  | .error e => .error e
  | .ok found => .ok (dropRepeats none (inOrder found.flatten))

end SkinLint.Project
