import SkinLint.Command.Arguments
import SkinLint.Project.Format

/-! The commands and what each of them takes. -/
namespace SkinLint

inductive LogAction where
  | view
  | clear
  /-- Keep showing entries as they come, looking again after some milliseconds. -/
  | follow (interval : Nat)
deriving DecidableEq, Repr

inductive SettingChange where
  | executable (path : Text)
  | autoRefresh (enabled : Bool)
  | toggleAutoRefresh
  | mode (m : RefreshMode)
  | logPath (path : Text)
deriving DecidableEq, Repr

inductive Command where
  | check (paths : List Path) (form : ReportForm)
  | format (paths : List Path) (mode : Project.FormatMode) (quiet : Bool)
  | fold (file : Path) (form : ReportForm)
  | colours (file : Path) (form : ReportForm)
  | complete (line : Text) (form : ReportForm)
  | log (path : Option Path) (action : LogAction) (limit : Option Nat) (form : ReportForm)
  | refresh (target : Option Text)
  | onSave (file : Path)
  | showSettings
  | changeSetting (change : SettingChange)
deriving DecidableEq, Repr

structure Invocation where
  override : Option Path
  command : Command
deriving DecidableEq, Repr

namespace Command

/-- A path is not empty. -/
def pathOf? (t : Text) : Option Path := if t.isEmpty then none else some ⟨t⟩

def optional? {α : Type} (read : Text → Option α) (value : Option Text) : Option (Option α) :=
  match value with
  | none => some none
  | some t => (read t).map some

def formOf? (t : Text) : Option ReportForm :=
  if t = "plain".toList then some .plain else if t = "json".toList then some .json else none

def booleanOf? (t : Text) : Option Bool :=
  if t = "true".toList then some true else if t = "false".toList then some false else none

/-- A number of 64 bits, with a plus sign or none. -/
def numberOf? (t : Text) : Option Nat :=
  let digits :=
    match t with
    | '+' :: rest => rest
    | t => t
  (Text.decimal? digits).filter (· < 0x10000000000000000)

namespace Given

def form? (given : Given) : Option ReportForm :=
  (optional? formOf? (given.option? "format")).map (·.getD .plain)

def paths? (given : Given) : Option (List Path) := (given.options? "path").mapM pathOf?

def override? (given : Given) : Option (Option Path) := optional? pathOf? (given.option? "config")

def word? (given : Given) : Option Text := given.words.head?

def file? (given : Given) : Option Path := given.word?.bind pathOf?

end Given

def checkOf? (given : Given) : Option Command := do
  return .check (← given.paths?) (← given.form?)

/-- Of `check`, `diff` and `write` at most one may be given. -/
def formatModeOf? (given : Given) : Option Project.FormatMode :=
  match given.has "check", given.has "diff", given.has "write" with
  | true, false, false => some .check
  | false, true, false => some .diff
  | false, false, _ => some .write
  | _, _, _ => none

def formatOf? (given : Given) : Option Command := do
  return .format (← given.paths?) (← formatModeOf? given) (given.has "quiet")

/-- Clearing and following rule each other out. An interval calls for following, unless that is
ruled out. -/
def logActionOf? (given : Given) : Option LogAction := do
  let interval ← optional? numberOf? (given.option? "interval-ms")
  match given.has "clear", given.has "follow", interval with
  | false, true, interval => return .follow (interval.getD 1000)
  | true, false, _ => return .clear
  | false, false, none => return .view
  | _, _, _ => none

def logOf? (given : Given) : Option Command := do
  let path ← optional? pathOf? (given.option? "path")
  let limit ← optional? numberOf? (given.option? "limit")
  return .log path (← logActionOf? given) limit (← given.form?)

/-- A command without further commands, and how its arguments are understood. -/
def leaf? : String → Option (Grammar × (Given → Option Command))
  | "check" => some ({ options := ["path", "format"], repeatable := ["path"] }, checkOf?)
  | "fmt" =>
    some ({ options := ["path"], repeatable := ["path"],
            flags := ["check", "diff", "write", "quiet"] }, formatOf?)
  | "fold" =>
    some ({ options := ["format"], words := 1 }, fun given => do
      return .fold (← given.file?) (← given.form?))
  | "colors" =>
    some ({ options := ["format"], words := 1 }, fun given => do
      return .colours (← given.file?) (← given.form?))
  | "complete" =>
    some ({ options := ["format"], words := 1, freeWords := true }, fun given => do
      return .complete (← given.word?) (← given.form?))
  | "log" =>
    some ({ options := ["path", "limit", "interval-ms", "format"], flags := ["clear", "follow"],
            letters := [('f', "follow")] }, logOf?)
  | "refresh" =>
    some ({ options := ["target"] }, fun given => some (.refresh (given.option? "target")))
  | "on-save" => some ({ words := 1 }, fun given => given.file?.map .onSave)
  | _ => none

def settingsLeaf? : String → Option (Grammar × (Given → Option Command))
  | "show" => some ({}, fun _ => some .showSettings)
  | "toggle-auto-refresh" => some ({}, fun _ => some (.changeSetting .toggleAutoRefresh))
  | _ => none

def setLeaf? : String → Option (Grammar × (Given → Option Command))
  | "executable" =>
    some ({ words := 1, freeWords := true }, fun given =>
      given.word?.map fun t => .changeSetting (.executable t))
  | "auto-refresh" =>
    some ({ words := 1 }, fun given =>
      (given.word?.bind booleanOf?).map fun b => .changeSetting (.autoRefresh b))
  | "mode" =>
    some ({ words := 1 }, fun given =>
      (given.word?.bind fun t => RefreshMode.ofName? (Text.str t)).map fun m =>
        .changeSetting (.mode m))
  | "log-path" =>
    some ({ words := 1, freeWords := true }, fun given =>
      given.word?.map fun t => .changeSetting (.logPath t))
  | _ => none

end Command

namespace Invocation

open Command

/-- Reads a command without further commands. A file of settings given later wins. -/
def ofLeaf? (override : Option Path) (leaf : Grammar × (Given → Option Command))
    (arguments : List Text) : Option Invocation := do
  let (given, _) ← leaf.1.parse? arguments
  return { override := (← given.override?) <|> override, command := ← leaf.2 given }

/-- Reads a command that is followed by another, which `next` reads. -/
def ofBranch? (override : Option Path) (arguments : List Text)
    (next : Option Path → String → List Text → Option Invocation) : Option Invocation := do
  let (given, rest) ← Grammar.parse? { branches := true } arguments
  let override := (← given.override?) <|> override
  match rest with
  | [] => none
  | name :: rest => next override (Text.str name) rest

/-- Reads all arguments; `none` if they do not fit. -/
def parse? (arguments : List Text) : Option Invocation :=
  ofBranch? none arguments fun override name rest =>
    if name = "settings" then
      ofBranch? override rest fun override name rest =>
        if name = "set" then
          ofBranch? override rest fun override name rest =>
            (setLeaf? name).bind (ofLeaf? override · rest)
        else (settingsLeaf? name).bind (ofLeaf? override · rest)
    else (leaf? name).bind (ofLeaf? override · rest)

end Invocation

end SkinLint
