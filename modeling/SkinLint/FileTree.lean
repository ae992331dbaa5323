import SkinLint.Encoding.Utf8
import SkinLint.Path

/-!
Files and folders. What is stored is addressed by the names on the way from the root; a path is
followed to such names from the working directory, one step after the other.
-/
namespace SkinLint

inductive FileError where
  | notFound
  | denied
  | busy
  | alreadyThere
  | notAFolder
  | isAFolder
  | nameTooLong
  | zeroInName
  | zeroInArgument
  | notText
deriving DecidableEq, Repr

def FileError.message : FileError → String
  | .notFound => "No such file or directory (os error 2)"
  | .denied => "Permission denied (os error 13)"
  | .busy => "Device or resource busy (os error 16)"
  | .alreadyThere => "File exists (os error 17)"
  | .notAFolder => "Not a directory (os error 20)"
  | .isAFolder => "Is a directory (os error 21)"
  | .nameTooLong => "File name too long (os error 36)"
  | .zeroInName => "file name contained an unexpected NUL byte"
  | .zeroInArgument => "nul byte found in provided data"
  | .notText => "stream did not contain valid UTF-8"

structure FileFailure where
  path : Path
  reason : FileError
deriving DecidableEq, Repr

def FileFailure.message (f : FileFailure) : String :=
  s!"i/o error at {f.path.str}: {f.reason.message}"

abbrev Names := List Text

namespace Names

def path (names : Names) : Path := ⟨'/' :: Text.joinWith ['/'] names⟩

end Names

inductive FileEntry where
  | folder
  | file (contents : Bytes) (executable : Bool)
deriving DecidableEq, Repr

structure FileTree where
  entries : List (Names × FileEntry) := []
  workingFolder : Names := []
deriving DecidableEq, Repr

namespace FileTree

def entry? (t : FileTree) (names : Names) : Option FileEntry :=
  if names = [] then some .folder else t.entries.lookup names

def set (names : Names) (e : FileEntry) (t : FileTree) : FileTree :=
  { t with entries := (names, e) :: t.entries.filter (·.1 != names) }

def erase (names : Names) (t : FileTree) : FileTree :=
  { t with entries := t.entries.filter fun e => !names.isPrefixOf e.1 }

/-- The files below a folder, with their names from there on. -/
def filesBelow (t : FileTree) (folder : Names) : List Names :=
  t.entries.filterMap fun
    | (names, .file _ _) =>
      if folder.isPrefixOf names then some (names.drop folder.length) else none
    | _ => none

def maxNameLength : Nat := 255

/-- One step of a path, which has to start in a folder. -/
def step (t : FileTree) (names : Names) (piece : Text) : Except FileError Names :=
  match t.entry? names with
  | none => .error .notFound
  | some (.file ..) => .error .notAFolder
  | some .folder =>
    if piece = [] ∨ piece = ['.'] then .ok names
    else if piece = ['.', '.'] then .ok names.dropLast
    else if maxNameLength < (Utf8.encode piece).length then .error .nameTooLong
    else .ok (names ++ [piece])

/-- The names a path leads to, whether something is there or not. -/
def locate (t : FileTree) (p : Path) : Except FileError Names :=
  if p.isEmpty then .error .notFound
  else if p.text.contains (Char.ofNat 0) then .error .zeroInName
  else p.pieces.foldlM t.step (if p.isAbsolute then [] else t.workingFolder)

def look (t : FileTree) (p : Path) : Except FileError FileEntry :=
  match t.locate p with
  | .error e => .error e
  | .ok names =>
    match t.entry? names with
    | none => .error .notFound
    | some entry => .ok entry

def contains (t : FileTree) (p : Path) : Bool := (t.look p).isOk

def isFile (t : FileTree) (p : Path) : Bool :=
  match t.look p with
  | .ok (.file ..) => true
  | _ => false

def isFolder (t : FileTree) (p : Path) : Bool :=
  match t.look p with
  | .ok .folder => true
  | _ => false

def isExecutable (t : FileTree) (p : Path) : Bool :=
  match t.look p with
  | .ok (.file _ executable) => executable
  | .ok .folder => true
  | .error _ => false

def read (t : FileTree) (p : Path) : Except FileError Bytes :=
  match t.look p with
  | .ok (.file contents _) => .ok contents
  | .ok .folder => .error .isAFolder
  | .error e => .error e

def readText (t : FileTree) (p : Path) : Except FileError Text :=
  match t.read p with
  | .error e => .error e
  | .ok bytes =>
    match Utf8.decode? bytes with
    | none => .error .notText
    | some text => .ok text

/-- The absolute path without detours to something that is there. -/
def canonical (t : FileTree) (p : Path) : Except FileError Path :=
  match t.locate p, t.look p with
  | .ok names, .ok _ => .ok names.path
  | .error e, _ => .error e
  | _, .error e => .error e

def workingPath (t : FileTree) : Path := t.workingFolder.path

def overwrite (p : Path) (contents : Bytes) (t : FileTree) : Except FileError FileTree :=
  match t.locate p with
  | .error e => .error e
  | .ok names =>
    match t.entry? names with
    | some .folder => .error .isAFolder
    | some (.file _ executable) => .ok (t.set names (.file contents executable))
    | none => .ok (t.set names (.file contents false))

def makeFolder (p : Path) (t : FileTree) : Except FileError FileTree :=
  -- A slash at the end does not call for a folder that is still to be made.
  match t.locate ⟨(p.text.reverse.dropWhile (· == '/')).reverse⟩ with
  | .error e => if p.text.all (· == '/') && !p.isEmpty then .error .alreadyThere else .error e
  | .ok names =>
    match t.entry? names with
    | some _ => .error .alreadyThere
    | none => .ok (t.set names .folder)

/-- Makes a folder and, as far as they are missing, those above it. -/
def makeFoldersWithin : Nat → Path → FileTree → Except FileError FileTree
  | 0, _, t => .ok t
  | fuel + 1, p, t =>
    if p.isEmpty then .ok t
    else
      match t.makeFolder p with
      | .ok t => .ok t
      | .error .notFound =>
        match p.parent? with
        | none => .error .notFound
        | some above =>
          match makeFoldersWithin fuel above t with
          | .error e => .error e
          | .ok t =>
            match t.makeFolder p with
            | .ok t => .ok t
            | .error e => if t.isFolder p then .ok t else .error e
      | .error e => if t.isFolder p then .ok t else .error e

/-- A parent is shorter than its child, so the length of the path is enough. -/
def makeFolders (p : Path) (t : FileTree) : Except FileError FileTree :=
  makeFoldersWithin (p.text.length + 1) p t

/-- Puts a new file in the place of a path at once, and makes the folders it needs. A file that was
there stays executable if it was. -/
def replace (p : Path) (contents : Bytes) (t : FileTree) : Except FileError FileTree :=
  let parent := if p.directory.isEmpty then ⟨['.']⟩ else p.directory
  match t.makeFolders parent with
  | .error e => .error e
  | .ok t =>
    let last := p.pieces.getLast?.getD []
    if p.isEmpty then .error .notFound
    else if last = ['.'] ∨ last = ['.', '.'] ∨ p.text.all (· == '/') then .error .busy
    else if last = [] then .error .notAFolder
    else
      match t.locate p with
      | .error e => .error e
      | .ok names =>
        match t.entry? names with
        | some .folder => .error .isAFolder
        | some (.file _ executable) => .ok (t.set names (.file contents executable))
        | none => .ok (t.set names (.file contents false))

end FileTree

end SkinLint
