import SkinLint.Refresh

/-!
The skin engine as a program. It is started with the command for a refresh and has succeeded if it
ends well and, for a single skin, has nothing to complain about.
-/
namespace SkinLint.Refresh

structure Finished where
  success : Bool
  output : Bytes
  errors : Bytes

structure Surroundings where
  /-- Folders in which programs are looked for by their names. -/
  searchFolders : List Path
  /-- The folder for application data. -/
  appData : Path
  /-- Runs the program with some names; it may change files. -/
  launch : Names → List Text → FileTree → Finished × FileTree

def programAt (t : FileTree) (p : Path) : Except FileError Names :=
  match t.look p with
  | .error reason => .error reason
  | .ok (.file _ true) => t.locate p
  | .ok _ => .error .denied

/-- The first program with a name in some folders. A file there that may not be run matters only if
no other is found. -/
def programIn (t : FileTree) (name : Path) : FileError → List Path → Except FileError Names
  | reason, [] => .error reason
  | reason, folder :: rest =>
    match programAt t (folder.join name) with
    | .ok names => .ok names
    | .error .denied => programIn t name .denied rest
    | .error _ => programIn t name reason rest

namespace Surroundings

/-- A program by its path or, without a slash in it, by its name. -/
def program (s : Surroundings) (t : FileTree) (p : Path) : Except FileError Names :=
  if p.text.contains '/' then programAt t p else programIn t p .notFound s.searchFolders

def run (s : Surroundings) (p : Path) (arguments : List Text) (t : FileTree) :
    Except FileError Finished × FileTree :=
  if (p.text :: arguments).any (·.contains (Char.ofNat 0)) then (.error .zeroInArgument, t)
  else
    match s.program t p with
    | .error reason => (.error reason, t)
    | .ok names =>
      let (finished, t) := s.launch names arguments t
      (.ok finished, t)

/-- Is a process with the name of the executable running? -/
def isRunning (s : Surroundings) (executable : Path) (t : FileTree) : Bool × FileTree :=
  match executable.fileName? with
  | none => (false, t)
  | some image =>
    match s.run (.ofString "pgrep") ["-x".toList, image] t with
    | (.error _, t) => (false, t)
    | (.ok finished, t) =>
      (finished.success && !(Text.trim (Utf8.decodeLossy finished.output)).isEmpty, t)

end Surroundings

/-- The command that a request is given to the engine with. -/
def Request.arguments : Request → List Text
  | .all => ["!RefreshApp".toList]
  | .target config => ["!Refresh".toList, config]

/-- What the end of the program says about a request. -/
def Request.judge (r : Request) (finished : Finished) : Except Error Unit :=
  let detail := Text.str (Text.trim (Utf8.decodeLossy finished.errors))
  match r with
  | .all => if finished.success then .ok () else .error (.refreshAllFailed detail)
  | .target config =>
    if finished.success && detail.isEmpty then .ok ()
    else .error (.refreshTargetFailed config detail)

/-- The engine that a program is. -/
def processEngine (s : Surroundings) (executable : Path) : Engine FileTree := fun request t =>
  if executable.isEmpty then (.error .notConfigured, t)
  else
    match s.run executable request.arguments t with
    | (.error reason, t) => (.error (.notLaunched executable reason), t)
    | (.ok finished, t) => (request.judge finished, t)

end SkinLint.Refresh
