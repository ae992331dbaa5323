import SkinLint.Colour
import SkinLint.Command.Arguments
import SkinLint.Command.Invocation
import SkinLint.Command.Run
import SkinLint.Completion
import SkinLint.Completion.Catalogue
import SkinLint.Config.Basic
import SkinLint.Config.Layer
import SkinLint.Config.Loading
import SkinLint.Config.Problem
import SkinLint.Config.Update
import SkinLint.Diagnostic
import SkinLint.Diff.Compaction
import SkinLint.Diff.Edit
import SkinLint.Diff.Script
import SkinLint.Diff.Unified
import SkinLint.Document
import SkinLint.Encoding.Source
import SkinLint.Encoding.Utf16
import SkinLint.Encoding.Utf8
import SkinLint.FileTree
import SkinLint.Fold
import SkinLint.Glob
import SkinLint.Glob.Pattern
import SkinLint.Json
import SkinLint.Layout
import SkinLint.Line
import SkinLint.Log
import SkinLint.Log.File
import SkinLint.Main
import SkinLint.Meter.Keys
import SkinLint.Meter.Suggestion
import SkinLint.Path
import SkinLint.PathVariables
import SkinLint.Position
import SkinLint.Project.Check
import SkinLint.Project.Format
import SkinLint.Project.Targets
import SkinLint.Refresh
import SkinLint.Refresh.Process
import SkinLint.Registration
import SkinLint.Report
import SkinLint.Rule
import SkinLint.Settings
import SkinLint.Text.Basic
import SkinLint.Text.Blank
import SkinLint.Text.Lower
import SkinLint.Text.Word
import SkinLint.Toml.Document
import SkinLint.Toml.Edition
import SkinLint.Toml.Quoted
import SkinLint.Toml.Reader
import SkinLint.Toml.Scalar
import SkinLint.Toml.Value
import SkinLint.Validation
import SkinLint.Validation.Inclusions
import SkinLint.Validation.MeterKeys
import SkinLint.Validation.Sections
import SkinLint.Proofs.Line
import SkinLint.Proofs.Document
import SkinLint.Proofs.Layout
import SkinLint.Proofs.Encoding.Utf16
import SkinLint.Proofs.Encoding.RoundTrip
import SkinLint.Proofs.FileTree
import SkinLint.Proofs.Project.Format
import SkinLint.Proofs.Validation.Pass
import SkinLint.Proofs.Validation.Layout
import SkinLint.Proofs.Validation.Formatting
import SkinLint.Proofs.Validation.Reports
import SkinLint.Proofs.Validation.Sections
import SkinLint.Proofs.Validation.Headers
import SkinLint.Proofs.Validation.Inclusions
import SkinLint.Proofs.Meter.Keys
import SkinLint.Proofs.Validation.Blocks
import SkinLint.Proofs.Validation.Ranges
import SkinLint.Proofs.Validation.Levels
import SkinLint.Proofs.Validation.Edits
import SkinLint.Proofs.Encoding.Lossy
import SkinLint.Proofs.Log.Follower
import SkinLint.Proofs.Config.Layers
import SkinLint.Proofs.Config.Problems
import SkinLint.Proofs.Toml.Quoted
import SkinLint.Proofs.Toml.Writing
import SkinLint.Proofs.Toml.Comments
import SkinLint.Proofs.Toml.Spelling
import SkinLint.Proofs.Toml.Printing
import SkinLint.Proofs.Toml.Splicing
import SkinLint.Proofs.Config.Update
import SkinLint.Proofs.Config.Saving
import SkinLint.Proofs.Config.Discovery
import SkinLint.Proofs.Project.Targets
import SkinLint.Proofs.Project.RelativeRoot
import SkinLint.Proofs.Project.Check
import SkinLint.Proofs.Project.Modes
import SkinLint.Proofs.Fold
import SkinLint.Proofs.Registration
import SkinLint.Proofs.Colour.Literals
import SkinLint.Proofs.Colour.Editing
import SkinLint.Proofs.Layout.Canonical
import SkinLint.Proofs.PathVariables.Expansion
import SkinLint.Proofs.PathVariables.Folders
import SkinLint.Proofs.Path.Components
import SkinLint.Proofs.Path.Resolution
import SkinLint.Proofs.PathVariables.Denotation
import SkinLint.Proofs.Validation.Spellings
import SkinLint.Proofs.Colour.Words
import SkinLint.Proofs.Colour.Detection
import SkinLint.Proofs.Colour.Formatting
import SkinLint.Proofs.Fold.Regions
import SkinLint.Proofs.Fold.Sections
import SkinLint.Proofs.Log.View
import SkinLint.Proofs.Line.Grammar
import SkinLint.Proofs.Fold.Headers
import SkinLint.Proofs.Path.Joining
import SkinLint.Proofs.Refresh
