import JavaMend.Archive.Checksum
import JavaMend.Archive.Container
import JavaMend.Archive.Digest
import JavaMend.Archive.Files
import JavaMend.Archive.Frame
import JavaMend.Archive.Manifest
import JavaMend.Build.Decompiler
import JavaMend.Build.Patching
import JavaMend.Build.Process
import JavaMend.CommandLine.Arguments
import JavaMend.CommandLine.Run
import JavaMend.Config
import JavaMend.Diff.Anchor
import JavaMend.Diff.Basic
import JavaMend.Diff.Candidates
import JavaMend.Diff.Engine
import JavaMend.Diff.Fragments
import JavaMend.Diff.Parser
import JavaMend.Diff.Report
import JavaMend.Disk
import JavaMend.Disk.Change
import JavaMend.Disk.Lookup
import JavaMend.Disk.Path
import JavaMend.Formatter
import JavaMend.Host.Calculation
import JavaMend.Host.Command
import JavaMend.Host.Editor.Reader
import JavaMend.Host.Editor.Run
import JavaMend.Host.Editor.Script
import JavaMend.Host.Files.Changes
import JavaMend.Host.Files.Listing
import JavaMend.Host.Files.Names
import JavaMend.Host.Launching
import JavaMend.Host.Number.Amount
import JavaMend.Host.Number.Layout
import JavaMend.Host.Options
import JavaMend.Host.Pattern.CharSet
import JavaMend.Host.Pattern.Expression
import JavaMend.Host.Pattern.Glob
import JavaMend.Host.Pattern.Reader
import JavaMend.Host.Printing
import JavaMend.Host.Records.Parts
import JavaMend.Host.Records.Program
import JavaMend.Host.Records.Reader
import JavaMend.Host.Records.Run
import JavaMend.Host.Records.State
import JavaMend.Host.Records.Token
import JavaMend.Host.Records.Value
import JavaMend.Host.Search
import JavaMend.Host.Shell.Arithmetic
import JavaMend.Host.Shell.Builtins
import JavaMend.Host.Shell.Conditions
import JavaMend.Host.Shell.Expansion
import JavaMend.Host.Shell.Reader
import JavaMend.Host.Shell.Run
import JavaMend.Host.Shell.Script
import JavaMend.Host.Shell.State
import JavaMend.Host.Streams.Characters
import JavaMend.Host.Streams.Fields
import JavaMend.Host.Streams.Lines
import JavaMend.Host.Streams.Sorting
import JavaMend.Host.Tool
import JavaMend.Host.Toolbox
import JavaMend.Java.Builtin
import JavaMend.Java.Comments
import JavaMend.Java.Constants
import JavaMend.Java.Fixup
import JavaMend.Java.Imports
import JavaMend.Java.Labels
import JavaMend.Java.Qualified
import JavaMend.Java.Renames
import JavaMend.Java.Segments
import JavaMend.Java.Tidy
import JavaMend.Main
import JavaMend.Normalizer
import JavaMend.Proofs.Archive.Acceptance
import JavaMend.Proofs.Archive.Loading
import JavaMend.Proofs.Archive.Restoring
import JavaMend.Proofs.Archive.RoundTrip
import JavaMend.Proofs.Archive.Saving
import JavaMend.Proofs.Archive.Trees
import JavaMend.Proofs.Archive.Unpacking
import JavaMend.Proofs.Build.PatchRuns
import JavaMend.Proofs.Build.Stages
import JavaMend.Proofs.Build.Trials
import JavaMend.Proofs.ByteLines
import JavaMend.Proofs.ByteOrder
import JavaMend.Proofs.Diff.Agreement
import JavaMend.Proofs.Diff.Applied
import JavaMend.Proofs.Diff.Choosing
import JavaMend.Proofs.Diff.Expectations
import JavaMend.Proofs.Diff.Grammar
import JavaMend.Proofs.Diff.Grouping
import JavaMend.Proofs.Diff.Inertness
import JavaMend.Proofs.Diff.Leftovers
import JavaMend.Proofs.Diff.LineEndings
import JavaMend.Proofs.Diff.LineTexts
import JavaMend.Proofs.Diff.Parsed
import JavaMend.Proofs.Diff.Rendering
import JavaMend.Proofs.Diff.Reordering
import JavaMend.Proofs.Diff.Replay
import JavaMend.Proofs.Diff.Reversal
import JavaMend.Proofs.Diff.Searching
import JavaMend.Proofs.Diff.Widening
import JavaMend.Proofs.Disk.FileTrees
import JavaMend.Proofs.Disk.Growth
import JavaMend.Proofs.Disk.Lexical
import JavaMend.Proofs.Disk.Making
import JavaMend.Proofs.Disk.Parents
import JavaMend.Proofs.Except
import JavaMend.Proofs.Idempotence
import JavaMend.Proofs.Java.AddedImports
import JavaMend.Proofs.Java.Blocks
import JavaMend.Proofs.Java.ByteSegments
import JavaMend.Proofs.Java.CallPlaces
import JavaMend.Proofs.Java.CallScan
import JavaMend.Proofs.Java.CanonicalBlock
import JavaMend.Proofs.Java.Capture
import JavaMend.Proofs.Java.CodeEdits
import JavaMend.Proofs.Java.CutSegments
import JavaMend.Proofs.Java.Declared
import JavaMend.Proofs.Java.EmptyStatements
import JavaMend.Proofs.Java.Enclosing
import JavaMend.Proofs.Java.Finding
import JavaMend.Proofs.Java.FixedLines
import JavaMend.Proofs.Java.FixedLiterals
import JavaMend.Proofs.Java.HeaderScans
import JavaMend.Proofs.Java.InnerClasses
import JavaMend.Proofs.Java.KeptLines
import JavaMend.Proofs.Java.KeptTokens
import JavaMend.Proofs.Java.LabelSpacing
import JavaMend.Proofs.Java.Layouts
import JavaMend.Proofs.Java.Literals
import JavaMend.Proofs.Java.MarkedConstants
import JavaMend.Proofs.Java.MarkedEdits
import JavaMend.Proofs.Java.MarkedImports
import JavaMend.Proofs.Java.Marks
import JavaMend.Proofs.Java.Measures
import JavaMend.Proofs.Java.Modes
import JavaMend.Proofs.Java.NamedExactly
import JavaMend.Proofs.Java.NamedOnce
import JavaMend.Proofs.Java.NamingScan
import JavaMend.Proofs.Java.Namings
import JavaMend.Proofs.Java.Nesting
import JavaMend.Proofs.Java.NumeralValues
import JavaMend.Proofs.Java.Parts
import JavaMend.Proofs.Java.PointedTokens
import JavaMend.Proofs.Java.Preservation
import JavaMend.Proofs.Java.Recast
import JavaMend.Proofs.Java.RemovedComments
import JavaMend.Proofs.Java.RenamedAtOnce
import JavaMend.Proofs.Java.RenamedNames
import JavaMend.Proofs.Java.Repaired
import JavaMend.Proofs.Java.RunMeasure
import JavaMend.Proofs.Java.Runs
import JavaMend.Proofs.Java.SegmentGrammar
import JavaMend.Proofs.Java.ShortenedCode
import JavaMend.Proofs.Java.Shortening
import JavaMend.Proofs.Java.SingleCasts
import JavaMend.Proofs.Java.StrippedOnce
import JavaMend.Proofs.Java.ThinnedLines
import JavaMend.Proofs.Java.TidiedLines
import JavaMend.Proofs.Java.TidyLiterals
import JavaMend.Proofs.Java.TidyOnce
import JavaMend.Proofs.Java.Tokens
import JavaMend.Proofs.Java.TouchedLines
import JavaMend.Proofs.Java.TrimmedFractions
import JavaMend.Proofs.Lines
import JavaMend.Proofs.Normalizing
import JavaMend.Proofs.Stores
import JavaMend.Proofs.Stores.Refinement
import JavaMend.Proofs.Stores.Workers
import JavaMend.Store
import JavaMend.Store.Key
import JavaMend.Text
import JavaMend.Text.Blank
import JavaMend.Text.Bytes
import JavaMend.Text.Letters
import JavaMend.Text.Lines
import JavaMend.Text.Numerals
import JavaMend.Text.Order
import JavaMend.Text.Ranges
import JavaMend.Text.Words
import JavaMend.Toml.Document
import JavaMend.Toml.Moment
import JavaMend.Toml.Scalar
import JavaMend.Toml.Value
