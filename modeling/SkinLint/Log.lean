import SkinLint.Document
import SkinLint.Encoding.Utf8
import SkinLint.Text.Word

/-! Entries of the log that the skin engine writes, one on each line that is not blank. -/
namespace SkinLint.Log

inductive Level where
  | error
  | warning
  | debug
  | note
deriving DecidableEq, Repr

namespace Level

def name : Level → String
  | .error => "error"
  | .warning => "warning"
  | .debug => "debug"
  | .note => "note"

/-- Does a line have the tag as a word of its own? -/
def tagged (tag : String) (line : Text) : Bool := Text.hasWord (· == ·) tag.toList none line

/-- The same, up to the case of ASCII letters. -/
def taggedAnyCase (tag : String) (line : Text) : Bool :=
  Text.hasWord (fun a b => Text.lowerAscii a == Text.lowerAscii b) tag.toList none line

def detect (line : Text) : Level :=
  if tagged "ERRO" line then .error
  else if tagged "WARN" line then .warning
  else if taggedAnyCase "DBUG" line || taggedAnyCase "DEBUG" line then .debug
  else .note

end Level

structure Entry where
  level : Level
  text : Text
deriving DecidableEq, Repr

/-- A line without the carriage returns at its end. -/
def dropReturns (t : Text) : Text := (t.reverse.dropWhile (· == '\r')).reverse

def entry? (line : Text) : Option Entry :=
  let text := dropReturns line
  if (Text.trim text).isEmpty then none else some ⟨Level.detect text, text⟩

def entries (t : Text) : List Entry := (Text.splitOn '\n' t).filterMap entry?

/-- A text without all leading byte order marks. -/
def dropMarks (t : Text) : Text := t.dropWhile (· == Document.mark)

inductive View where
  | missing
  | empty
  /-- The newest entry first. -/
  | entries (entries : List Entry)
deriving DecidableEq, Repr

def View.notice? : View → Option String
  | .missing => some "Rainmeter.log not found. Please select the correct path."
  | .empty =>
    some "Rainmeter.log is empty. Please ensure that logging is enabled (Logging=1 in Rainmeter.ini)."
  | .entries _ => none

def View.ofText (t : Text) : View :=
  let body := dropMarks t
  if (Text.trim body).isEmpty then .empty else .entries (Log.entries body).reverse

/-- Reads a log that grows. `offset` bytes have been read so far. -/
structure Follower where
  offset : Nat := 0
deriving DecidableEq, Repr

namespace Follower

/-- The bytes up to the last newline. -/
def complete (bytes : Bytes) : Bytes := (bytes.reverse.dropWhile (· != 10)).reverse

/-- Looks at the log once; `none` when there is no log. Only complete lines are read, and a log that
became shorter is read from its start. -/
def poll (f : Follower) : Option Bytes → Follower × List Entry
  | none => (⟨0⟩, [])
  | some bytes =>
    let offset := if bytes.length < f.offset then 0 else f.offset
    let fresh := complete (bytes.drop offset)
    (⟨offset + fresh.length⟩, entries (dropMarks (Utf8.decodeLossy fresh)))

end Follower

end SkinLint.Log
