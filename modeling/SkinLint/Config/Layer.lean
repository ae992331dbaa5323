import SkinLint.Settings
import SkinLint.Toml.Value

/-!
Layers of configuration. A layer holds what one file says, each value with its origin; of two layers
the upper one wins, field by field and, for levels and meters, name by name.
-/
namespace SkinLint.Config

inductive OriginKind where
  | defaults
  | repository
  | folder
  | override
deriving DecidableEq, Repr

def OriginKind.name : OriginKind → String
  | .defaults => "defaults"
  | .repository => "git-root config"
  | .folder => "local config"
  | .override => "override config"

structure Origin where
  kind : OriginKind
  path : Option Path
  /-- The folder that relative paths are seen from. -/
  base : Path
deriving DecidableEq, Repr

namespace Origin

def defaults (base : Path) : Origin := ⟨.defaults, none, base⟩

def ofFile (kind : OriginKind) (path : Path) : Origin :=
  ⟨kind, some path, path.parent?.getD (.ofString ".")⟩

def describe (o : Origin) : String :=
  match o.kind, o.path with
  | .defaults, _ => "built-in defaults"
  | kind, some path => s!"{kind.name} at {path.str}"
  | kind, none => kind.name

end Origin

structure Located (α : Type) where
  value : α
  origin : Origin
deriving DecidableEq, Repr

structure Layer where
  root : Option (Located Path) := none
  includes : Option (Located (List Text)) := none
  excludes : Option (Located (List Text)) := none
  strictSectionNames : Option (Located Bool) := none
  maxSectionNameLength : Option (Located Nat) := none
  resourceFolder : Option (Located Text) := none
  skinsRoot : Option (Located Text) := none
  skinsFolderName : Option (Located Text) := none
  trailingSeparator : Option (Located Bool) := none
  caseSensitiveNames : Option (Located Bool) := none
  /-- Levels by the names of rules. -/
  levels : List (Text × Located Text) := []
  /-- Further keys by the names of meters. -/
  meterKeys : List (Text × Located (List Text)) := []
  executable : Option (Located Path) := none
  autoRefreshOnSave : Option (Located Bool) := none
  mode : Option (Located Text) := none
  logPath : Option (Located Path) := none
deriving DecidableEq, Repr

/-- An order in which the names of a table are visited. A table has no order of its own, so the
names alone decide, and not the way they are listed. -/
structure NameOrder where
  visit : List Text → List Text
  perm (names : List Text) : (visit names).Perm names
  visit_eq {names names' : List Text} (h : names.Perm names') : visit names = visit names'

namespace NameOrder

def nameLE (a b : Text) : Bool := (Ord.compare (a.map Char.toNat) (b.map Char.toNat)).isLE

theorem nameLE_antisymm {a b : Text} (hab : nameLE a b) (hba : nameLE b a) : a = b := by
  have hcodes := Std.LawfulEqCmp.eq_of_compare (Std.OrientedCmp.isLE_antisymm hab hba)
  exact List.map_inj_right (fun _ _ hchar => Char.toNat_inj.1 hchar) |>.1 hcodes

theorem nameLE_trans {a b c : Text} (hab : nameLE a b) (hbc : nameLE b c) : nameLE a c :=
  Std.TransCmp.isLE_trans hab hbc

theorem nameLE_total (a b : Text) : nameLE a b ∨ nameLE b a := by
  unfold nameLE
  rw [Std.OrientedOrd.eq_swap (a := b.map Char.toNat)]
  cases Ord.compare (a.map Char.toNat) (b.map Char.toNat) <;> simp

def insertName (name : Text) : List Text → List Text
  | [] => [name]
  | other :: rest =>
    if nameLE name other then name :: other :: rest else other :: insertName name rest

theorem insertName_perm (name : Text) (names : List Text) :
    (insertName name names).Perm (name :: names) := by
  induction names with
  | nil => exact .refl _
  | cons other rest ih =>
    unfold insertName
    split
    · exact .refl _
    · exact (ih.cons other).trans (.swap name other rest)

theorem insertName_comm (a b : Text) (names : List Text) :
    insertName a (insertName b names) = insertName b (insertName a names) := by
  induction names with
  | nil => grind [insertName, nameLE_antisymm, nameLE_total]
  | cons name names ih => grind [insertName, nameLE_antisymm, nameLE_total, nameLE_trans]

/-- Names in the order of their characters. -/
def byCharacters : NameOrder where
  visit names := names.foldr insertName []
  perm names := by
    induction names with
    | nil => exact .refl _
    | cons name names ih => exact (insertName_perm name _).trans (ih.cons name)
  visit_eq h := h.foldr_eq' (fun a _ b _ names => insertName_comm b a names) []

/-- Named entries in the order of their names. -/
def arrange {α : Type} (order : NameOrder) (entries : List (Text × α)) : List (Text × α) :=
  (order.visit (entries.map Prod.fst)).filterMap fun name => (entries.lookup name).map (name, ·)

end NameOrder

namespace Layer

def arrange (order : NameOrder) (l : Layer) : Layer :=
  { l with levels := order.arrange l.levels, meterKeys := order.arrange l.meterKeys }

/-- The upper entries, and of the lower ones those whose names are not among them. -/
def union {α : Type} (lower upper : List (Text × α)) : List (Text × α) :=
  upper ++ lower.filter fun (name, _) => (upper.lookup name).isNone

def merge (lower upper : Layer) : Layer where
  root := upper.root <|> lower.root
  includes := upper.includes <|> lower.includes
  excludes := upper.excludes <|> lower.excludes
  strictSectionNames := upper.strictSectionNames <|> lower.strictSectionNames
  maxSectionNameLength := upper.maxSectionNameLength <|> lower.maxSectionNameLength
  resourceFolder := upper.resourceFolder <|> lower.resourceFolder
  skinsRoot := upper.skinsRoot <|> lower.skinsRoot
  skinsFolderName := upper.skinsFolderName <|> lower.skinsFolderName
  trailingSeparator := upper.trailingSeparator <|> lower.trailingSeparator
  caseSensitiveNames := upper.caseSensitiveNames <|> lower.caseSensitiveNames
  levels := union lower.levels upper.levels
  meterKeys := union lower.meterKeys upper.meterKeys
  executable := upper.executable <|> lower.executable
  autoRefreshOnSave := upper.autoRefreshOnSave <|> lower.autoRefreshOnSave
  mode := upper.mode <|> lower.mode
  logPath := upper.logPath <|> lower.logPath

def mergeAll (layers : List Layer) : Layer := layers.foldl merge {}

/-- The files that are skins unless a configuration says otherwise. -/
def defaultIncludes : List Text := ["**/*.ini", "**/*.inc", "**/*.nek"].map String.toList

/-- The layer below all files. -/
def defaults (base : Path) : Layer :=
  let origin := Origin.defaults base
  let validation : ValidationSettings := {}
  let refresh : RefreshSettings := {}
  { root := some ⟨.ofString ".", origin⟩
    includes := some ⟨defaultIncludes, origin⟩
    excludes := some ⟨[], origin⟩
    strictSectionNames := some ⟨validation.strictSectionNames, origin⟩
    maxSectionNameLength := some ⟨validation.maxSectionNameLength, origin⟩
    resourceFolder := some ⟨validation.resourceFolder, origin⟩
    skinsRoot := some ⟨validation.skinsRoot.name.toList, origin⟩
    skinsFolderName := some ⟨validation.skinsFolderName, origin⟩
    trailingSeparator := some ⟨validation.trailingSeparator, origin⟩
    caseSensitiveNames := some ⟨validation.caseSensitiveNames, origin⟩
    executable := some ⟨refresh.executable, origin⟩
    autoRefreshOnSave := some ⟨refresh.autoRefreshOnSave, origin⟩
    mode := some ⟨refresh.mode.name.toList, origin⟩ }

open Toml (Value)

def pathOf? (v : Value) : Option Path := v.string?.map Path.mk

def namesToTexts? (v : Value) : Option (List (Text × Text)) :=
  v.table?.bind (·.mapM fun (name, value) => value.string?.map (name, ·))

def extraKeys? (v : Value) : Option (List Text) := do
  let fields ← v.fields? ["extra_keys"]
  return (← Toml.field? Value.strings? "extra_keys" fields).getD []

def metersOf? (v : Value) : Option (List (Text × List Text)) :=
  v.table?.bind (·.mapM fun (name, value) => (extraKeys? value).map (name, ·))

/-- The fields of a record that may be missing. -/
def recordOf? (names : List String) (name : String) (fields : List (Text × Value)) :
    Option (List (Text × Value)) :=
  (Toml.field? (Value.fields? names) name fields).map (·.getD [])

/-- What a document says. Names that mean nothing are passed over; a value of the wrong kind makes
the whole document unreadable. -/
def ofValue? (origin : Origin) (v : Value) : Option Layer := do
  let top ← v.table?
  let project ← recordOf? ["root", "include", "exclude"] "project" top
  let validate ← recordOf?
    ["strict_section_names", "max_section_name_length", "resource_folder", "skins_root",
     "skins_folder_name", "trailing_separator", "case_sensitive_names", "severity"] "validate" top
  let meters ← Toml.field? metersOf? "meters" top
  let refresh ← recordOf? ["executable", "auto_refresh_on_save", "mode"] "refresh" top
  let log ← recordOf? ["path"] "log" top
  let root ← Toml.field? pathOf? "root" project
  let includes ← Toml.field? Value.strings? "include" project
  let excludes ← Toml.field? Value.strings? "exclude" project
  let strictSectionNames ← Toml.field? Value.boolean? "strict_section_names" validate
  let maxSectionNameLength ← Toml.field? Value.natural? "max_section_name_length" validate
  let resourceFolder ← Toml.field? Value.string? "resource_folder" validate
  let skinsRoot ← Toml.field? Value.string? "skins_root" validate
  let skinsFolderName ← Toml.field? Value.string? "skins_folder_name" validate
  let trailingSeparator ← Toml.field? Value.boolean? "trailing_separator" validate
  let caseSensitiveNames ← Toml.field? Value.boolean? "case_sensitive_names" validate
  let levels ← Toml.field? namesToTexts? "severity" validate
  let executable ← Toml.field? pathOf? "executable" refresh
  let autoRefreshOnSave ← Toml.field? Value.boolean? "auto_refresh_on_save" refresh
  let mode ← Toml.field? Value.string? "mode" refresh
  let logPath ← Toml.field? pathOf? "path" log
  return {
    root := root.map (⟨·, origin⟩)
    includes := includes.map (⟨·, origin⟩)
    excludes := excludes.map (⟨·, origin⟩)
    strictSectionNames := strictSectionNames.map (⟨·, origin⟩)
    maxSectionNameLength := maxSectionNameLength.map (⟨·, origin⟩)
    resourceFolder := resourceFolder.map (⟨·, origin⟩)
    skinsRoot := skinsRoot.map (⟨·, origin⟩)
    skinsFolderName := skinsFolderName.map (⟨·, origin⟩)
    trailingSeparator := trailingSeparator.map (⟨·, origin⟩)
    caseSensitiveNames := caseSensitiveNames.map (⟨·, origin⟩)
    levels := (levels.getD []).map fun (name, level) => (name, ⟨level, origin⟩)
    meterKeys := (meters.getD []).map fun (name, keys) => (name, ⟨keys, origin⟩)
    executable := executable.map (⟨·, origin⟩)
    autoRefreshOnSave := autoRefreshOnSave.map (⟨·, origin⟩)
    mode := mode.map (⟨·, origin⟩)
    logPath := logPath.map (⟨·, origin⟩) }

end Layer

end SkinLint.Config
