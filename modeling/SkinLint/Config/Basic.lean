import SkinLint.Config.Problem
import SkinLint.Meter.Keys

/-! A configuration, and how it comes from a layer: every value is checked, and relative paths are
seen from the folder of the file that gives them. -/
namespace SkinLint

structure ProjectSettings where
  root : Path
  includes : List Glob.Pattern
  excludes : List Glob.Pattern

/-- Is a path below the root one of the project's skins? -/
def ProjectSettings.inScope (p : ProjectSettings) (path : Path) : Bool :=
  !p.excludes.any (·.accepts path) && (p.includes.isEmpty || p.includes.any (·.accepts path))

structure Settings where
  project : ProjectSettings
  validation : ValidationSettings
  meters : MeterSettings
  refresh : RefreshSettings
  log : LogSettings

structure Config extends Settings where
  workingFolder : Path
  origins : List Config.Origin

namespace Config

def Located.resolve (p : Located Path) : Path := p.origin.base.join p.value

namespace Layer

/-- Patterns that cannot be read. -/
def patternProblems (field : PatternField) : Option (Located (List Text)) → List Problem
  | none => []
  | some patterns =>
    patterns.value.filterMap fun pattern =>
      match Glob.Pattern.parse pattern with
      | .error fault => some ⟨.badPattern field pattern fault, some patterns.origin⟩
      | .ok _ => none

/-- A problem of a value that is given, if it has one. -/
def problem? {α : Type} (cause? : α → Option Cause) : Option (Located α) → List Problem
  | none => []
  | some v => ((cause? v.value).map (⟨·, some v.origin⟩)).toList

def blank? (cause : Cause) (t : Text) : Option Cause :=
  if (Text.trim t).isEmpty then some cause else none

def levelProblem? (name level : Text) : Option Cause :=
  match Rule.ofName? (Text.str name) with
  | none => some (.unknownRule name)
  | some rule =>
    if (Level.ofName? (Text.str level)).isNone then some (.unknownLevel rule level) else none

def problems (l : Layer) : List Problem :=
  patternProblems .includes l.includes ++
  patternProblems .excludes l.excludes ++
  problem? (fun n => if n = 0 then some .zeroNameLength else none) l.maxSectionNameLength ++
  problem? (blank? .blankResourceFolder) l.resourceFolder ++
  problem? (blank? .blankSkinsFolderName) l.skinsFolderName ++
  problem? (fun t =>
    if (SkinsRootPolicy.ofName? (Text.str t)).isNone then some (.unknownSkinsRoot t) else none)
    l.skinsRoot ++
  (l.levels.flatMap fun (name, level) => problem? (levelProblem? name) (some level)) ++
  (l.meterKeys.flatMap fun (name, keys) =>
    problem? (fun _ => if (Meter.ofName? name).isNone then some (.unknownMeter name) else none)
      (some keys)) ++
  problem? (fun p : Path => if p.isEmpty then some .emptyExecutable else none) l.executable ++
  problem? (fun t => if (RefreshMode.ofName? (Text.str t)).isNone then some (.unknownMode t)
    else none) l.mode

def value {α : Type} (v : Option (Located α)) (fallback : α) : α := (v.map (·.value)).getD fallback

def patterns (v : Option (Located (List Text))) : List Glob.Pattern :=
  (value v []).filterMap fun t => (Glob.Pattern.parse t).toOption

def levelOf? (name : Text) (level : Located Text) : Option (Rule × Level) := do
  return (← Rule.ofName? (Text.str name), ← Level.ofName? (Text.str level.value))

/-- Keys without blanks around them; empty ones and repetitions are left out. -/
def cleanKeys (keys : List Text) : List Text :=
  ((keys.map Text.trim).filter (!·.isEmpty)).foldl Meter.addKey []

def meterOf? (name : Text) (keys : Located (List Text)) : Option (Meter × List Text) :=
  (Meter.ofName? name).map (·, cleanKeys keys.value)

def settings (l : Layer) : Settings :=
  let validation : ValidationSettings := {}
  let refresh : RefreshSettings := {}
  { project :=
      { root := (l.root.getD ⟨.ofString ".", .defaults (.ofString ".")⟩).resolve
        includes := patterns l.includes
        excludes := patterns l.excludes }
    validation :=
      { strictSectionNames := value l.strictSectionNames validation.strictSectionNames
        maxSectionNameLength := value l.maxSectionNameLength validation.maxSectionNameLength
        resourceFolder := value l.resourceFolder validation.resourceFolder
        skinsRoot :=
          (l.skinsRoot.bind fun t => SkinsRootPolicy.ofName? (Text.str t.value)).getD
            validation.skinsRoot
        skinsFolderName := value l.skinsFolderName validation.skinsFolderName
        trailingSeparator := value l.trailingSeparator validation.trailingSeparator
        caseSensitiveNames := value l.caseSensitiveNames validation.caseSensitiveNames
        levels := l.levels.filterMap fun (name, level) => levelOf? name level }
    meters := { extraKeys := l.meterKeys.filterMap fun (name, keys) => meterOf? name keys }
    refresh :=
      { executable := value l.executable refresh.executable
        autoRefreshOnSave := value l.autoRefreshOnSave refresh.autoRefreshOnSave
        mode :=
          (l.mode.bind fun t => RefreshMode.ofName? (Text.str t.value)).getD refresh.mode }
    log := { path := l.logPath.map Located.resolve } }

def resolve (l : Layer) : Except (List Problem) Settings :=
  if l.problems.isEmpty then .ok l.settings else .error l.problems

end Layer

/-- The configuration of a project that has no files of settings. -/
def defaults (root : Path) : Config :=
  { (Layer.defaults root).settings with
    workingFolder := root
    origins := [.defaults root] }

end Config

end SkinLint
