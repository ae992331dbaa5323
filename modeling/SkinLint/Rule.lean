/-! What is checked, and how serious each finding is. -/
namespace SkinLint

inductive Level where
  | error
  | warning
  | hint
  /-- Findings of the rule are not reported. -/
  | ignore
deriving DecidableEq, Repr

namespace Level

def all : List Level := [.error, .warning, .hint, .ignore]

def name : Level → String
  | .error => "error"
  | .warning => "warning"
  | .hint => "hint"
  | .ignore => "ignore"

def ofName? (s : String) : Option Level := all.find? (·.name == s)

theorem ofName?_name (l : Level) : ofName? l.name = some l := by
  cases l <;> decide

end Level

inductive Severity where
  | error
  | warning
  | hint
deriving DecidableEq, Repr

namespace Severity

def name : Severity → String
  | .error => "error"
  | .warning => "warning"
  | .hint => "hint"

def ofLevel? : Level → Option Severity
  | .error => some .error
  | .warning => some .warning
  | .hint => some .hint
  | .ignore => none

theorem ofLevel?_eq_none_iff (l : Level) : ofLevel? l = none ↔ l = .ignore := by
  cases l <;> simp [ofLevel?]

end Severity

inductive Rule where
  | malformedKeyValue
  | unterminatedSection
  | emptySectionName
  | sectionNameLength
  | sectionNameChars
  | duplicateSection
  | duplicateKey
  | missingRainmeter
  | missingVariables
  | unsupportedVariable
  | includeNotFound
  | circularInclude
  | invalidMeterKey
  | emptyNumberedKey
deriving DecidableEq, Repr

namespace Rule

def all : List Rule :=
  [.malformedKeyValue, .unterminatedSection, .emptySectionName, .sectionNameLength,
   .sectionNameChars, .duplicateSection, .duplicateKey, .missingRainmeter, .missingVariables,
   .unsupportedVariable, .includeNotFound, .circularInclude, .invalidMeterKey, .emptyNumberedKey]

def name : Rule → String
  | .malformedKeyValue => "malformed-key-value"
  | .unterminatedSection => "unterminated-section"
  | .emptySectionName => "empty-section-name"
  | .sectionNameLength => "section-name-length"
  | .sectionNameChars => "section-name-chars"
  | .duplicateSection => "duplicate-section"
  | .duplicateKey => "duplicate-key"
  | .missingRainmeter => "missing-rainmeter"
  | .missingVariables => "missing-variables"
  | .unsupportedVariable => "unsupported-macro"
  | .includeNotFound => "include-not-found"
  | .circularInclude => "circular-include"
  | .invalidMeterKey => "invalid-meter-key"
  | .emptyNumberedKey => "empty-numbered-key"

def ofName? (s : String) : Option Rule := all.find? (·.name == s)

theorem ofName?_name (r : Rule) : ofName? r.name = some r := by
  cases r <;> decide

/-- The level of a rule that no configuration mentions. -/
def defaultLevel : Rule → Level
  | .duplicateSection | .duplicateKey | .missingVariables | .emptyNumberedKey => .warning
  | .unsupportedVariable => .hint
  | _ => .error

end Rule

end SkinLint
