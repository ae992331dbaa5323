import SkinLint.Diagnostic
import SkinLint.Json
import SkinLint.Path

/-! The report of a check over several files, as plain lines or as JSON. -/
namespace SkinLint

structure Finding where
  path : Path
  diagnostic : Diagnostic
deriving DecidableEq, Repr

structure Skipped where
  path : Path
  reason : String
deriving DecidableEq, Repr

structure Report where
  filesScanned : Nat
  findings : List Finding
  skipped : List Skipped := []
deriving DecidableEq, Repr

inductive ReportForm where
  | plain
  | json
deriving DecidableEq, Repr

namespace Position

def json (p : Position) : Json :=
  .object [("line", .number p.line), ("character", .number p.character)]

end Position

namespace Range

def json (r : Range) : Json := .object [("start", r.start.json), ("end", r.stop.json)]

end Range

namespace Report

def count (r : Report) (s : Severity) : Nat :=
  r.findings.countP fun f => f.diagnostic.severity == s

def hasErrors (r : Report) : Bool := r.count .error > 0 || !r.skipped.isEmpty

def exitCode (r : Report) : Nat := if r.hasErrors then 1 else 0

def findingLine (f : Finding) : String :=
  let d := f.diagnostic
  s!"{f.path.str}:{d.range.start.line + 1}:{d.range.start.character + 1}: " ++
    s!"{d.severity.name}[{d.rule.name}] {d.message}\n"

def skippedLine (s : Skipped) : String :=
  s!"{s.path.str}: error: could not read file: {s.reason}\n"

def summary (r : Report) : String :=
  s!"{r.filesScanned} file(s) checked: {r.count .error} error(s), " ++
    s!"{r.count .warning} warning(s), {r.count .hint} hint(s)" ++
    if r.skipped.isEmpty then "" else s!"; {r.skipped.length} file(s) unreadable"

def plain (r : Report) : String :=
  String.join (r.findings.map findingLine) ++ String.join (r.skipped.map skippedLine) ++ r.summary

def findingJson (f : Finding) : Json :=
  .object
    [("path", .string f.path.str), ("rule", .string f.diagnostic.rule.name),
     ("severity", .string f.diagnostic.severity.name), ("range", f.diagnostic.range.json),
     ("message", .string f.diagnostic.message)]

def skippedJson (s : Skipped) : Json :=
  .object [("path", .string s.path.str), ("reason", .string s.reason)]

def json (r : Report) : Json :=
  .object
    [("files_scanned", .number r.filesScanned), ("error_count", .number (r.count .error)),
     ("warning_count", .number (r.count .warning)), ("hint_count", .number (r.count .hint)),
     ("findings", .list (r.findings.map findingJson)),
     ("skipped", .list (r.skipped.map skippedJson))]

def render (r : Report) : ReportForm → String
  | .plain => r.plain
  | .json => r.json.pretty

end Report

end SkinLint
