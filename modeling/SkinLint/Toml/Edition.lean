/-! The editions of TOML by which a text may be read. -/
namespace SkinLint.Toml

inductive Edition where
  /-- Version 1.0. -/
  | v10
  /-- Version 1.1, which adds times without seconds, two escapes, and line ends, comments and a
  last comma between braces. -/
  | v11
deriving DecidableEq, Repr

end SkinLint.Toml
