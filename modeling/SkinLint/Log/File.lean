import SkinLint.FileTree
import SkinLint.Log

/-! The log as a file: showing it, clearing it, and following it as it grows. -/
namespace SkinLint.Log

def view (t : FileTree) (path : Path) : Except FileFailure View :=
  match t.readText path with
  | .ok text => .ok (View.ofText text)
  | .error .notFound => .ok .missing
  | .error reason => .error ⟨path, reason⟩

/-- Empties the log; one that is missing stays missing. -/
def clear (path : Path) (t : FileTree) : Except FileFailure FileTree :=
  if !t.contains path then .ok t
  else
    match t.overwrite path [] with
    | .ok t => .ok t
    | .error reason => .error ⟨path, reason⟩

def Follower.pollFile (f : Follower) (t : FileTree) (path : Path) :
    Except FileFailure (Follower × List Entry) :=
  match t.read path with
  | .ok bytes => .ok (f.poll (some bytes))
  | .error .notFound => .ok (f.poll none)
  | .error reason => .error ⟨path, reason⟩

end SkinLint.Log
