import SkinLint.Position
import SkinLint.Rule

/-! Findings of a check, before and after they are given a severity. -/
namespace SkinLint

/-- A breach of a rule, with no regard to how serious it is. -/
structure Breach where
  rule : Rule
  range : Range
  message : String
deriving DecidableEq, Repr

structure Diagnostic where
  rule : Rule
  severity : Severity
  range : Range
  message : String
deriving DecidableEq, Repr

/-- The diagnostic for a breach under given levels; an ignored rule has none. -/
def Breach.diagnostic? (level : Rule → Level) (b : Breach) : Option Diagnostic :=
  (Severity.ofLevel? (level b.rule)).map fun severity =>
    { rule := b.rule, severity, range := b.range, message := b.message }

end SkinLint
