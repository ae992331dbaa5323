import SkinLint.Config.Layer
import SkinLint.FileTree
import SkinLint.Glob

/-! What can be wrong with a configuration. -/
namespace SkinLint.Config

inductive PatternField where
  | includes
  | excludes
deriving DecidableEq, Repr

def PatternField.name : PatternField → String
  | .includes => "project.include"
  | .excludes => "project.exclude"

inductive Cause where
  | badPattern (field : PatternField) (pattern : Text) (fault : Glob.Fault)
  | zeroNameLength
  | blankResourceFolder
  | blankSkinsFolderName
  | unknownSkinsRoot (policy : Text)
  | unknownRule (rule : Text)
  | unknownLevel (rule : Rule) (level : Text)
  | unknownMeter (name : Text)
  | emptyExecutable
  | unknownMode (mode : Text)
  /-- A path that is to be saved is blank. -/
  | blankPath (setting : String)
deriving DecidableEq, Repr

namespace Cause

def setting : Cause → String
  | .badPattern field _ _ => field.name
  | .zeroNameLength => "validate.max_section_name_length"
  | .blankResourceFolder => "validate.resource_folder"
  | .blankSkinsFolderName => "validate.skins_folder_name"
  | .unknownSkinsRoot _ => "validate.skins_root"
  | .unknownRule _ | .unknownLevel _ _ => "validate.severity"
  | .unknownMeter _ => "meters"
  | .emptyExecutable => "refresh.executable"
  | .unknownMode _ => "refresh.mode"
  | .blankPath setting => setting

def message : Cause → String
  | .badPattern _ pattern fault =>
    let shown := Text.str pattern
    s!"invalid glob pattern '{shown}': error parsing glob '{shown}': {fault.message}"
  | .zeroNameLength => "max_section_name_length must be greater than 0"
  | .blankResourceFolder | .blankSkinsFolderName => "value cannot be empty"
  | .unknownSkinsRoot policy =>
    s!"unknown skins root policy '{Text.str policy}' (expected 'resources' or 'skins-folder')"
  | .unknownRule rule => s!"unknown rule '{Text.str rule}' in validate.severity"
  | .unknownLevel rule level => s!"invalid severity '{Text.str level}' for rule '{rule.name}'"
  | .unknownMeter name => s!"unknown meter type '{Text.str name}'"
  | .emptyExecutable => "executable path cannot be empty"
  | .unknownMode mode =>
    s!"unknown refresh mode '{Text.str mode}' (expected 'all' or 'specific')"
  | .blankPath _ => "Path cannot be empty!"

end Cause

structure Problem where
  cause : Cause
  origin : Option Origin
deriving DecidableEq, Repr

def Problem.message (p : Problem) : String :=
  let text := p.cause.setting ++ ": " ++ p.cause.message
  match p.origin with
  | none => text
  | some origin => s!"{text} ({origin.describe})"

inductive Error where
  | noWorkingFolder (attempted : Path) (reason : FileError)
  | overrideNotFound (path : Path)
  | unreadable (path : Path) (reason : FileError)
  /-- The file is not a configuration. -/
  | malformed (path : Path)
  /-- The file is not well formed and cannot be changed. -/
  | uneditable (path : Path)
  | notATable (path : Path) (table : String)
  | invalid (problems : List Problem)
deriving DecidableEq, Repr

def Error.message : Error → String
  | .noWorkingFolder attempted reason =>
    s!"failed to resolve working directory {attempted.str}: {reason.message}"
  | .overrideNotFound path => s!"override config {path.str} not found"
  | .unreadable path reason => s!"failed to read config {path.str}: {reason.message}"
  | .malformed path => s!"failed to parse config {path.str}: TOML parse error"
  | .uneditable path => s!"failed to edit config {path.str}: TOML parse error"
  | .notATable path table => s!"config {path.str}: `{table}` is not a table"
  | .invalid problems =>
    "configuration validation failed:\n" ++
      "\n".intercalate (problems.map fun p => "- " ++ p.message)

end SkinLint.Config
