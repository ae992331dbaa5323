import SkinLint.Path
import SkinLint.Rule

/-! Settings of the checks, of the refresh after saving, and of the log. -/
namespace SkinLint

inductive SkinsRootPolicy where
  /-- Two levels above the folder of the document. -/
  | resources
  /-- The nearest folder at or above the document's that has a given name. -/
  | skinsFolder
deriving DecidableEq, Repr

namespace SkinsRootPolicy

def name : SkinsRootPolicy → String
  | .resources => "resources"
  | .skinsFolder => "skins-folder"

def ofName? (s : String) : Option SkinsRootPolicy := [.resources, .skinsFolder].find? (·.name == s)

theorem ofName?_name (p : SkinsRootPolicy) : ofName? p.name = some p := by
  cases p <;> decide

end SkinsRootPolicy

inductive Meter where
  | string
  | image
deriving DecidableEq, Repr

namespace Meter

def all : List Meter := [.string, .image]

/-- The name in a configuration. -/
def name : Meter → String
  | .string => "string"
  | .image => "image"

/-- The name in a skin. -/
def display : Meter → String
  | .string => "String"
  | .image => "Image"

/-- Names are read without regard to the case of ASCII letters. -/
def ofName? (t : Text) : Option Meter := all.find? fun m => Text.eqIgnoreCase t m.name.toList

end Meter

inductive RefreshMode where
  | all
  | specific
deriving DecidableEq, Repr

namespace RefreshMode

def name : RefreshMode → String
  | .all => "all"
  | .specific => "specific"

def ofName? (s : String) : Option RefreshMode := [.all, .specific].find? (·.name == s)

theorem ofName?_name (m : RefreshMode) : ofName? m.name = some m := by
  cases m <;> decide

end RefreshMode

structure ValidationSettings where
  strictSectionNames : Bool := false
  maxSectionNameLength : Nat := 255
  resourceFolder : Text := "@Resources".toList
  skinsRoot : SkinsRootPolicy := .resources
  skinsFolderName : Text := "Skins".toList
  trailingSeparator : Bool := true
  /-- Are section names and keys that differ only in case different? -/
  caseSensitiveNames : Bool := false
  levels : List (Rule × Level) := []
deriving DecidableEq, Repr

/-- The level of a rule: the configured one, or the rule's own. -/
def ValidationSettings.level (s : ValidationSettings) (r : Rule) : Level :=
  (s.levels.lookup r).getD r.defaultLevel

structure MeterSettings where
  extraKeys : List (Meter × List Text) := []
deriving DecidableEq, Repr

def MeterSettings.extraKeysFor (s : MeterSettings) (m : Meter) : List Text :=
  (s.extraKeys.lookup m).getD []

structure RefreshSettings where
  executable : Path := .ofString "C:\\Program Files\\Rainmeter\\Rainmeter.exe"
  autoRefreshOnSave : Bool := true
  mode : RefreshMode := .all
deriving DecidableEq, Repr

structure LogSettings where
  path : Option Path := none
deriving DecidableEq, Repr

/-- The configured log, or the usual one below the folder for application data. -/
def LogSettings.resolvedPath (appData : Path) (s : LogSettings) : Path :=
  s.path.getD ((appData.join (.ofString "Rainmeter")).join (.ofString "Rainmeter.log"))

end SkinLint
