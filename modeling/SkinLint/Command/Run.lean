import SkinLint.Colour
import SkinLint.Command.Invocation
import SkinLint.Completion
import SkinLint.Config.Update
import SkinLint.Fold
import SkinLint.Log.File
import SkinLint.Refresh.Process

/-! What the commands do: what they print, the code they end with, and the files they leave. -/
namespace SkinLint

structure Outcome where
  code : Nat
  output : String := ""
  errors : String := ""
  files : FileTree

structure Following where
  path : Path
  form : ReportForm
  /-- Milliseconds between two looks. -/
  interval : Nat
  follower : Log.Follower := {}

inductive Run where
  | finished (outcome : Outcome)
  /-- The command goes on after what it has printed so far. -/
  | following (state : Following) (output : String)

namespace Outcome

def failed (files : FileTree) (message : String) : Outcome :=
  { code := 1, errors := s!"rainlint error: {message}\n", files }

end Outcome

namespace Command

def lines (items : List String) : String := String.join (items.map (· ++ "\n"))

/-- A text with a newline at its end. -/
def closed (s : String) : String := if s.toList.getLast? = some '\n' then s else s ++ "\n"

def runCheck (s : Settings) (paths : List Path) (form : ReportForm) (t : FileTree) : Outcome :=
  match Project.check s t paths with
  | .error e => .failed t e.message
  | .ok report => { code := report.exitCode, output := closed (report.render form), files := t }

def changeText (mode : Project.FormatMode) (quiet : Bool) (change : Path × Option Text) : String :=
  match change.2, mode with
  | some diff, _ => closed (Text.str diff)
  | none, .check => s!"would reformat {change.1.str}\n"
  | none, _ => if quiet then "" else s!"formatted {change.1.str}\n"

def runFormat (s : Settings) (paths : List Path) (mode : Project.FormatMode) (quiet : Bool)
    (t : FileTree) : Outcome :=
  match Project.format s mode paths t with
  | .error e => .failed t e.message
  | .ok (report, files) =>
    let summary :=
      s!"{report.filesScanned} file(s) checked, {report.changes.length} need formatting\n"
    { code := report.exitCode mode
      output :=
        String.join (report.changes.map (changeText mode quiet)) ++ if quiet then "" else summary
      errors :=
        lines (report.skipped.map fun s => s!"error: could not read {s.path.str}: {s.reason}")
      files }

def withDocument (file : Path) (t : FileTree) (f : Text → Outcome) : Outcome :=
  match Project.readSource t file with
  | .error _ => .failed t s!"failed to read {file.str}"
  | .ok source => f source.text

def spanJson (s : Fold.Span) : Json :=
  .object
    [("start_line", .number s.start), ("end_line", .number s.stop), ("kind", .string s.kind.name)]

def spanLine (s : Fold.Span) : String := s!"{s.start + 1}-{s.stop + 1} {s.kind.name}"

def listing {α : Type} (line : α → String) (json : α → Json) (form : ReportForm) (items : List α) :
    String :=
  match form with
  | .plain => lines (items.map line)
  | .json => (Json.list (items.map json)).pretty ++ "\n"

def runFold (file : Path) (form : ReportForm) (t : FileTree) : Outcome :=
  withDocument file t fun text =>
    { code := 0, output := listing spanLine spanJson form (Fold.spans text), files := t }

def sortedPosition (p : Position) : Json :=
  .object [("character", .number p.character), ("line", .number p.line)]

def colourJson (e : Colour.Entry) : Json :=
  .object
    [("color", .object
      [("alpha", .number e.colour.alpha.toNat), ("blue", .number e.colour.blue.toNat),
       ("green", .number e.colour.green.toNat), ("red", .number e.colour.red.toNat)]),
     ("notation", .string e.form.name),
     ("presentation", .string (Text.str (e.colour.write e.form))),
     ("range", .object
      [("end", sortedPosition e.range.stop), ("start", sortedPosition e.range.start)])]

def colourLine (e : Colour.Entry) : String :=
  let line := e.range.start.line + 1
  let first := e.range.start.character + 1
  let last := e.range.stop.character + 1
  s!"{line}:{first}-{last} {Text.str (e.colour.write e.form)}"

def runColours (file : Path) (form : ReportForm) (t : FileTree) : Outcome :=
  withDocument file t fun text =>
    { code := 0, output := listing colourLine colourJson form (Colour.entries text), files := t }

def itemJson (i : Completion.Item) : Json :=
  .object (("label", .string i.label) ::
    (i.documentation.map fun text => ("documentation", Json.string text)).toList)

def itemLine (i : Completion.Item) : String :=
  match i.documentation with
  | some text => s!"{i.label}\t{text}"
  | none => i.label

def runComplete (line : Text) (form : ReportForm) (t : FileTree) : Outcome :=
  let items := Completion.complete line
  { code := if items.isEmpty then 1 else 0
    output := listing itemLine itemJson form items
    files := t }

def entryJson (e : Log.Entry) : Json :=
  .object [("level", .string e.level.name), ("text", .string (Text.str e.text))]

def entryLine (e : Log.Entry) : String := s!"[{e.level.name}] {Text.str e.text}"

def runShowLog (path : Path) (limit : Option Nat) (form : ReportForm) (t : FileTree) : Outcome :=
  match Log.view t path with
  | .error failure => .failed t failure.message
  | .ok view =>
    let errors := lines view.notice?.toList
    match view with
    | .missing => { code := 1, errors, files := t }
    | .empty => { code := 0, errors, files := t }
    | .entries entries =>
      let shown := entries.take (limit.getD entries.length)
      { code := 0, output := listing entryLine entryJson form shown, errors, files := t }

def runClearLog (path : Path) (t : FileTree) : Outcome :=
  match Log.clear path t with
  | .error failure => .failed t failure.message
  | .ok files => { code := 0, output := s!"cleared {path.str}\n", files }

def entryText (form : ReportForm) (e : Log.Entry) : String :=
  match form with
  | .plain => entryLine e
  | .json => (entryJson e).compact

end Command

namespace Following

/-- Looks at the log once, and shows the last `limit` of the new entries. -/
def poll (f : Following) (limit : Option Nat) (t : FileTree) :
    Except Outcome (Following × String) :=
  match f.follower.pollFile t f.path with
  | .error failure => .error (.failed t failure.message)
  | .ok (follower, entries) =>
    let shown := entries.drop (entries.length - limit.getD entries.length)
    .ok ({ f with follower }, Command.lines (shown.map (Command.entryText f.form)))

def start (path : Path) (interval : Nat) (limit : Option Nat) (form : ReportForm) (t : FileTree) :
    Run :=
  match poll { path, form, interval } limit t with
  | .error outcome => .finished outcome
  | .ok (state, output) => .following state output

end Following

namespace Command

def warning (message : String) : String := s!"warning: {message}\n"

def refreshedText : Refresh.Request → String
  | .all => "Rainmeter skins refreshed successfully!\n"
  | .target config => s!"Rainmeter skin \"{Text.str config}\" refreshed successfully!\n"

def runRefresh (around : Refresh.Surroundings) (s : RefreshSettings) (target : Option Text)
    (t : FileTree) : Outcome :=
  let (running, t) := around.isRunning s.executable t
  let name := Text.str (s.executable.fileName?.getD [])
  let note := if running then "" else warning s!"{name} does not appear to be running"
  let request : Refresh.Request := (target.map .target).getD .all
  match Refresh.processEngine around s.executable request t with
  | (.ok (), files) => { code := 0, output := refreshedText request, errors := note, files }
  | (.error e, files) => { code := 2, errors := note ++ warning e.message, files }

def runOnSave (around : Refresh.Surroundings) (s : RefreshSettings) (file : Path) (t : FileTree) :
    Outcome :=
  match Refresh.onSave s (Refresh.processEngine around s.executable) file t with
  | (.ok .skipped, files) => { code := 0, output := "skipped\n", files }
  | (.ok (.refreshed request), files) => { code := 0, output := refreshedText request, files }
  | (.error e, files) => { code := 2, errors := warning e.message, files }

def runShowSettings (appData : Path) (s : Settings) (t : FileTree) : Outcome :=
  { code := 0
    output := lines
      [s!"refresh.executable = {s.refresh.executable.str}",
       s!"refresh.auto_refresh_on_save = {s.refresh.autoRefreshOnSave}",
       s!"refresh.mode = {s.refresh.mode.name}",
       s!"log.path = {(s.log.resolvedPath appData).str}"]
    files := t }

/-- The update that a change asks for. Paths lose the blanks around them, and that of a log is seen
from the working folder. -/
def updateFor (s : Settings) (t : FileTree) : SettingChange → Config.Update
  | .executable path => .executable ⟨Text.trim path⟩
  | .autoRefresh enabled => .autoRefreshOnSave enabled
  | .toggleAutoRefresh => .autoRefreshOnSave (!s.refresh.autoRefreshOnSave)
  | .mode m => .mode m
  | .logPath path =>
    let path : Path := ⟨Text.trim path⟩
    .logPath (if path.isEmpty then path else t.workingPath.absoluteFrom path)

/-- The text of a file of settings, empty if there is no file. -/
def settingsText (t : FileTree) (path : Path) : Except FileError Text :=
  match t.readText path with
  | .error .notFound => .ok []
  | found => found

def runChangeSetting (s : Settings) (o : Config.LoadOptions) (change : SettingChange)
    (t : FileTree) : Outcome :=
  let update := updateFor s t change
  match o.settingsPath t with
  | .error e => .failed t e.message
  | .ok path =>
    match settingsText t path with
    | .error _ => .failed t s!"failed to read {path.str}"
    | .ok contents =>
      match update.apply path contents with
      | .error e => .failed t e.message
      | .ok new =>
        match t.replace path (Utf8.encode new) with
        | .error _ => .failed t s!"failed to write {path.str}"
        | .ok files => { code := 0, output := update.describe ++ "\n", files }

end Command

/-- Runs a command: the settings are read first, whatever the command is. -/
def Invocation.run (around : Refresh.Surroundings) (i : Invocation) (t : FileTree) : Run :=
  let options : Config.LoadOptions := { override := i.override }
  match Config.load t options with
  | .error e => .finished (.failed t e.message)
  | .ok config =>
    let s := config.toSettings
    match i.command with
    | .check paths form => .finished (Command.runCheck s paths form t)
    | .format paths mode quiet => .finished (Command.runFormat s paths mode quiet t)
    | .fold file form => .finished (Command.runFold file form t)
    | .colours file form => .finished (Command.runColours file form t)
    | .complete line form => .finished (Command.runComplete line form t)
    | .log path action limit form =>
      let path := path.getD (s.log.resolvedPath around.appData)
      match action with
      | .view => .finished (Command.runShowLog path limit form t)
      | .clear => .finished (Command.runClearLog path t)
      | .follow interval => Following.start path interval limit form t
    | .refresh target => .finished (Command.runRefresh around s.refresh target t)
    | .onSave file => .finished (Command.runOnSave around s.refresh file t)
    | .showSettings => .finished (Command.runShowSettings around.appData s t)
    | .changeSetting change => .finished (Command.runChangeSetting s options change t)

end SkinLint
