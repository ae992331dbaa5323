import SkinLint.Command.Run

/-!
The program. It takes a picture of the files that a command may look at, runs the command on the
picture, and writes back what has changed. It starts no other programs.
-/
namespace SkinLint.Main

/-- The names that an absolute path leads through, without detours. -/
def namesOf (p : Path) : Names := Path.normalNames p.components

def foldersAbove (names : Names) : List Names := (List.range names.length).map names.take

def pathsOf (i : Invocation) : List Path :=
  i.override.toList ++
    match i.command with
    | .check paths _ | .format paths _ _ => paths
    | .fold file _ | .colours file _ | .onSave file => [file]
    | .log path _ _ _ => path.toList
    | _ => []

def settingsPaths (appData : Path) (s : Settings) : List Path :=
  [s.project.root, s.log.resolvedPath appData]

/-- Adds a file, or a folder with all that is in it. Links are not followed into folders, and a
repository's own folder is not entered. -/
partial def addTree (t : FileTree) (names : Names) : IO FileTree := do
  let path := (← IO.currentDir) / names.path.str
  match ← (path.symlinkMetadata).toBaseIO with
  | .error _ => return t
  | .ok info =>
    if info.type == .dir then
      let mut t := t.set names .folder
      if names.getLast? != some ".git".toList then
        for child in ← path.readDir do
          t ← addTree t (names ++ [child.fileName.toList])
      return t
    else
      match ← (IO.FS.readBinFile path).toBaseIO with
      | .error _ => return t
      | .ok contents => return t.set names (.file contents.toList false)

/-- Adds what is at a path, with the folders above it. -/
def addPath (t : FileTree) (p : Path) : IO FileTree :=
  let names := namesOf (t.workingPath.absoluteFrom p)
  addTree ((foldersAbove names).foldl (fun t above => t.set above .folder) t) names

def addPaths (t : FileTree) (paths : List Path) : IO FileTree := paths.foldlM addPath t

/-- The working folder, and what the folders above it tell about settings. -/
def picture : IO FileTree := do
  let here := (← IO.currentDir).toString.toList
  let names := namesOf ⟨here⟩
  let mut t : FileTree := { workingFolder := names }
  for above in foldersAbove names do
    t := t.set above .folder
    t ← addTree t (above ++ [".git".toList])
    t ← addTree t (above ++ [Config.fileName.text])
  addTree t names

def writeBack (old new : FileTree) : IO Unit := do
  let here ← IO.currentDir
  for (names, entry) in new.entries do
    match entry with
    | .folder => pure ()
    | .file contents _ =>
      if old.entry? names != some entry then
        IO.FS.createDirAll (here / (Names.path names.dropLast).str)
        IO.FS.writeBinFile (here / names.path.str) ⟨contents.toArray⟩

/-- Goes on showing a log until it cannot be read any more. -/
partial def follow (state : Following) : IO UInt32 := do
  IO.sleep state.interval.toUInt32
  let here := (← IO.currentDir).toString.toList
  let t ← addPath { workingFolder := namesOf ⟨here⟩ } state.path
  match state.poll none t with
  | .error outcome =>
    IO.eprint outcome.errors
    return outcome.code.toUInt32
  | .ok (state, output) =>
    IO.print output
    follow state

def run (i : Invocation) : IO UInt32 := do
  let appData : Path := .ofString ((← IO.getEnv "APPDATA").getD "")
  let around : Refresh.Surroundings :=
    { searchFolders := [], appData, launch := fun _ _ t => (⟨false, [], []⟩, t) }
  let mut t ← addPaths (← picture) (pathsOf i)
  match Config.load t { override := i.override } with
  | .error _ => pure ()
  | .ok config => t ← addPaths t (settingsPaths appData config.toSettings)
  match i.run around t with
  | .finished outcome =>
    writeBack t outcome.files
    IO.print outcome.output
    IO.eprint outcome.errors
    return outcome.code.toUInt32
  | .following state output =>
    IO.print output
    follow state

end SkinLint.Main

def main (arguments : List String) : IO UInt32 :=
  match SkinLint.Invocation.parse? (arguments.map String.toList) with
  | some invocation => SkinLint.Main.run invocation
  | none => do
    IO.eprintln "error: the arguments do not fit a command"
    return 2
