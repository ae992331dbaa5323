import SkinLint.FileTree
import SkinLint.Settings

/-! Telling the skin engine to load skins again. -/
namespace SkinLint.Refresh

inductive Error where
  | notConfigured
  | outsideSkins (path : Path)
  | notLaunched (executable : Path) (reason : FileError)
  | refreshAllFailed (detail : String)
  | refreshTargetFailed (config : Text) (detail : String)
deriving DecidableEq, Repr

def Error.message : Error → String
  | .notConfigured => "Rainmeter path is not configured."
  | .outsideSkins _ => "File is not located within the Rainmeter 'Skins' folder."
  | .notLaunched executable reason =>
    s!"failed to launch {executable.str}: {reason.message}"
  | .refreshAllFailed _ => "Failed to refresh Rainmeter. Make sure Rainmeter is installed."
  | .refreshTargetFailed config _ =>
    s!"Failed to refresh Rainmeter skin \"{Text.str config}\". Ensure the skin exists."

inductive Request where
  | all
  | target (config : Text)
deriving DecidableEq, Repr

inductive Outcome where
  | skipped
  | refreshed (request : Request)
deriving DecidableEq, Repr

def skinsMark : Text := "\\skins\\".toList

/-- What follows the first occurrence of `mark`, up to the case of ASCII letters. -/
def after? (mark : Text) : Text → Option Text
  | [] => none
  | c :: t =>
    if Text.eqIgnoreCase ((c :: t).take mark.length) mark then some ((c :: t).drop mark.length)
    else after? mark t

def isConfigChar (c : Char) : Bool :=
  Text.isAsciiAlphanumeric c || c == '_' || c == '-' || c == '\\' || Text.isBlank c

/-- The configuration that a file below a skins folder belongs to: the folders on the way to it,
without unsafe characters. Both slashes divide folders. -/
def configOf (path : Path) : Except Error Text :=
  match after? skinsMark (path.text.map fun c => if c = '/' then '\\' else c) with
  | none => .error (.outsideSkins path)
  | some relative =>
    let folder :=
      match Text.splitLast? '\\' relative with
      | some (folder, _) => folder
      | none => []
    .ok ((Text.trim folder).filter isConfigChar)

def refreshable : List Text := ["ini", "inc", "nek"].map String.toList

/-- What to ask the engine for after a file was saved; nothing for files that are not skins. -/
def requestFor (s : RefreshSettings) (path : Path) : Except Error (Option Request) :=
  let extension := (path.extension?.getD []).map Text.lowerAscii
  if !s.autoRefreshOnSave then .ok none
  else
    match s.mode with
    | .specific =>
      if extension != "ini".toList then .ok none
      else if s.executable.isEmpty then .error .notConfigured
      else (configOf path).map fun config => some (.target config)
    | .all =>
      if !refreshable.contains extension then .ok none
      else if s.executable.isEmpty then .error .notConfigured
      else .ok (some .all)

/-- An engine answers a request from its state. -/
abbrev Engine (σ : Type) := Request → σ → Except Error Unit × σ

/-- Refreshes after a save: at most one request goes to the engine. -/
def onSave {σ : Type} (s : RefreshSettings) (engine : Engine σ) (path : Path) (state : σ) :
    Except Error Outcome × σ :=
  match requestFor s path with
  | .error e => (.error e, state)
  | .ok none => (.ok .skipped, state)
  | .ok (some request) =>
    match engine request state with
    | (.error e, state) => (.error e, state)
    | (.ok (), state) => (.ok (.refreshed request), state)

end SkinLint.Refresh
