import SkinLint.Settings
import SkinLint.Text.Word

/-!
Variables in the paths of inclusions. Their values depend on where the document lies: the skins
folder is an ancestor of its directory, and the root configuration is the nearest directory on the
way up to it that holds a resource folder.
-/
namespace SkinLint

structure PathVariables where
  resources : Text
  skins : Text
  currentPath : Text
  currentFile : Text
  rootConfigPath : Text
  rootConfig : Text
  currentConfig : Text
deriving DecidableEq, Repr

namespace PathVariables

/-- The directory two levels up, or the topmost if there are fewer. -/
def twoUp (dir : Path) : Path := (dir.ancestors.take 3).getLast?.getD dir

def namedLike (name : Text) (dir : Path) : Bool := dir.fileName?.any (Text.eqIgnoreCase · name)

def skinsRoot (s : ValidationSettings) (dir : Path) : Path :=
  match s.skinsRoot with
  | .resources => twoUp dir
  | .skinsFolder => (dir.ancestors.find? (namedLike s.skinsFolderName)).getD (twoUp dir)

/-- The directories from the first one up to `top`, which is the last one looked at. -/
def upTo (top : Path) : List Path → List Path
  | [] => []
  | dir :: rest => if dir.same top then [dir] else dir :: upTo top rest

/-- The nearest of the directories that holds the resource folder. -/
def findBase? (holds : Path → Bool) (dirs : List Path) : Option Path := dirs.find? holds

def build (s : ValidationSettings) (present : Path → Bool) (document : Path) : PathVariables :=
  let dir := document.directory
  let root := skinsRoot s dir
  let folder : Path := ⟨s.resourceFolder⟩
  let way := upTo root dir.ancestors
  let found := findBase? (fun d => present (d.join folder)) way
  let base := found.getD (way.getLast?.getD dir)
  { resources := (found.map fun d => (d.join folder).directoryText s.trailingSeparator).getD []
    skins := root.directoryText s.trailingSeparator
    currentPath := dir.directoryText s.trailingSeparator
    currentFile := document.fileName?.getD []
    rootConfigPath := base.directoryText s.trailingSeparator
    rootConfig := base.fileName?.getD []
    currentConfig := ((root.below? dir).map Path.slashed).getD [] }

def entries (v : PathVariables) : List (Text × Text) :=
  [("#@#".toList, v.resources),
   ("#SKINSPATH#".toList, v.skins),
   ("#CURRENTPATH#".toList, v.currentPath),
   ("#CURRENTFILE#".toList, v.currentFile),
   ("#ROOTCONFIGPATH#".toList, v.rootConfigPath),
   ("#ROOTCONFIG#".toList, v.rootConfig),
   ("#CURRENTCONFIG#".toList, v.currentConfig)]

/-- Does the text start with `#name#`? -/
def startsVariable : Text → Bool
  | '#' :: t => !(t.takeWhile Text.isWord).isEmpty && (t.dropWhile Text.isWord).head? == some '#'
  | _ => false

/-- Does the text start with `[#...]`, on one line? -/
def startsReference : Text → Bool
  | '[' :: '#' :: t => (t.takeWhile (· != '\n')).contains ']'
  | _ => false

def hasVariable : Text → Bool
  | [] => false
  | c :: t => startsVariable (c :: t) || startsReference (c :: t) || hasVariable t

/-- The text with all variables replaced, one after the other. -/
def expand (v : PathVariables) (raw : Text) : Text :=
  v.entries.foldl (fun t (token, value) => Text.replaceAll token value t) raw

end PathVariables

end SkinLint
