import SkinLint.Config.Basic
import SkinLint.Toml.Reader

/-!
Finding the files of settings and reading them. From the lowest to the highest these are the file at
the top of the repository, the one in the working folder, and the one that was asked for; each file
is read in its highest role only.
-/
namespace SkinLint.Config

def fileName : Path := .ofString ".rainlint.toml"

structure LoadOptions where
  /-- A file whose settings go before all others. -/
  override : Option Path := none
  /-- A working folder other than the current one. -/
  folder : Option Path := none
deriving DecidableEq, Repr

namespace LoadOptions

def workingFolder (o : LoadOptions) (t : FileTree) : Except Error Path :=
  match o.folder with
  | none => .ok t.workingPath
  | some folder =>
    match t.canonical folder with
    | .ok path => .ok path
    | .error reason => .error (.noWorkingFolder folder reason)

def overrideFrom (o : LoadOptions) (folder : Path) : Option Path :=
  o.override.map folder.absoluteFrom

def settingsPath (o : LoadOptions) (t : FileTree) : Except Error Path :=
  (o.workingFolder t).map fun folder => (o.overrideFrom folder).getD (folder.join fileName)

end LoadOptions

/-- The nearest folder, going upwards, that is the top of a repository. -/
def repository? (t : FileTree) (folder : Path) : Option Path :=
  folder.ancestors.find? fun dir => t.contains (dir.join (.ofString ".git"))

/-- Is a path the same as one that may be given? -/
def isSame (p : Path) (q : Option Path) : Bool := (q.map p.same).getD false

def fileOrigins (t : FileTree) (folder : Path) (override : Option Path) : List Origin :=
  let own := folder.join fileName
  let shared := ((repository? t folder).map (·.join fileName)).filter fun path =>
    t.contains path && !isSame path override && !path.same own
  (shared.map (.ofFile .repository)).toList ++
    (if t.contains own && !isSame own override then [.ofFile .folder own] else []) ++
    (override.map (.ofFile .override)).toList

def readLayer (t : FileTree) (origin : Origin) : Except Error Layer :=
  match origin.path with
  | none => .ok {}
  | some path =>
    match t.readText path with
    | .error reason => .error (.unreadable path reason)
    | .ok text =>
      match (Toml.Document.parse? .v10 text).bind fun d => Layer.ofValue? origin d.data with
      | none => .error (.malformed path)
      | some layer => .ok layer

/-- Reads the configuration that holds in the working folder. Two names may mean one meter, such as
`string` and `String`: the one that is visited first counts. -/
def loadIn (order : NameOrder) (t : FileTree) (o : LoadOptions) : Except Error Config := do
  let folder ← o.workingFolder t
  let override := o.overrideFrom folder
  match override.filter (!t.contains ·) with
  | some path => throw (.overrideNotFound path)
  | none =>
    let files := fileOrigins t folder override
    let layers ← files.mapM (readLayer t)
    match ((Layer.mergeAll (.defaults folder :: layers)).arrange order).resolve with
    | .error problems => throw (.invalid problems)
    | .ok settings =>
      return { settings with workingFolder := folder, origins := .defaults folder :: files }

def load : FileTree → LoadOptions → Except Error Config := loadIn .byCharacters

end SkinLint.Config
