import SkinLint.Config.Loading

/-! Changing one setting in the text of a file of settings. -/
namespace SkinLint.Config

inductive Update where
  | executable (path : Path)
  | autoRefreshOnSave (enabled : Bool)
  | mode (m : RefreshMode)
  | logPath (path : Path)
deriving DecidableEq, Repr

namespace Update

def table : Update → String
  | .logPath _ => "log"
  | _ => "refresh"

def key : Update → String
  | .executable _ => "executable"
  | .autoRefreshOnSave _ => "auto_refresh_on_save"
  | .mode _ => "mode"
  | .logPath _ => "path"

def setting (u : Update) : String := u.table ++ "." ++ u.key

def describe : Update → String
  | .executable path => s!"Rainmeter path set to: {path.str}"
  | .autoRefreshOnSave true => "Auto Refresh is now enabled"
  | .autoRefreshOnSave false => "Auto Refresh is now disabled"
  | .mode .all => "Rainmeter refresh mode set to: Refresh All Skins"
  | .mode .specific => "Rainmeter refresh mode set to: Refresh Specific Skin"
  | .logPath path => s!"Custom Rainmeter.log path saved: {path.str}"

/-- The path that the setting gets, if it is one. -/
def path? : Update → Option Path
  | .executable path | .logPath path => some path
  | _ => none

def value : Update → Toml.Value
  | .executable path | .logPath path => .string path.text
  | .autoRefreshOnSave enabled => .boolean enabled
  | .mode m => .string m.name.toList

def written (u : Update) : Text :=
  match u with
  | .executable path | .logPath path => Toml.Quoted.write path.text
  | .autoRefreshOnSave enabled => (if enabled then "true" else "false").toList
  | .mode m => Toml.Quoted.write m.name.toList

def problem? (u : Update) : Option Problem :=
  match u.path? with
  | some path => if (Text.trim path.text).isEmpty then some ⟨.blankPath u.setting, none⟩ else none
  | none => none

/-- The text of the file at `path` with the setting changed. -/
def apply (u : Update) (path : Path) (contents : Text) : Except Error Text :=
  match u.problem? with
  | some problem => .error (.invalid [problem])
  | none =>
    match Toml.Document.parse? .v11 contents with
    | none => .error (.uneditable path)
    | some d =>
      match d.set? u.table.toList u.key.toList (.value none u.written u.value) with
      | none => .error (.notATable path u.table)
      | some d => .ok d.render

end Update

end SkinLint.Config
