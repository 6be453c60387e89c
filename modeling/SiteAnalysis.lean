import SiteAnalysis.Number.Layout
import SiteAnalysis.Number.Reading
import SiteAnalysis.Text.Blank
import SiteAnalysis.Text.Case
import SiteAnalysis.Text.Printable
import SiteAnalysis.Text.Shown
import SiteAnalysis.Text.Argument
import SiteAnalysis.Expression.Fault
import SiteAnalysis.Error
import SiteAnalysis.Text.Line
import SiteAnalysis.Expression.Token
import SiteAnalysis.Expression.Syntax
import SiteAnalysis.Expression.Literal
import SiteAnalysis.Expression.Parser
import SiteAnalysis.Number.Arith
import SiteAnalysis.Expression.Value
import SiteAnalysis.Expression.Operator
import SiteAnalysis.Expression.Function
import SiteAnalysis.Expression.Bindings
import SiteAnalysis.Expression.Evaluate
import SiteAnalysis.Expression.Engine
import SiteAnalysis.Json.Basic
import SiteAnalysis.Json.Printer
import SiteAnalysis.Json.Number
import SiteAnalysis.Json.Token
import SiteAnalysis.Json.Fragment
import SiteAnalysis.Json.Reader
import SiteAnalysis.Scalar
import SiteAnalysis.Parameter
import SiteAnalysis.Geometry.Vector
import SiteAnalysis.Geometry.Cell
import SiteAnalysis.Grid
import SiteAnalysis.Axis
import SiteAnalysis.Pool
import SiteAnalysis.Histogram
import SiteAnalysis.Minimise.Basic
import SiteAnalysis.Minimise.Simplex
import SiteAnalysis.Minimise.Random
import SiteAnalysis.Minimise.MonteCarlo
import SiteAnalysis.Results
import SiteAnalysis.Json.Decode
import SiteAnalysis.Catalogue
import SiteAnalysis.Configuration
import SiteAnalysis.Path
import SiteAnalysis.Folder
import SiteAnalysis.Toml.Scan
import SiteAnalysis.Toml.Table
import SiteAnalysis.Toml.Reader
import SiteAnalysis.Toml.Printer
import SiteAnalysis.Node.Kind
import SiteAnalysis.Settings
import SiteAnalysis.Minimise.Choice
import SiteAnalysis.Node.Reference
import SiteAnalysis.Keyword.Range
import SiteAnalysis.Keyword.Data
import SiteAnalysis.Keyword.Store
import SiteAnalysis.Node.DynamicSite
import SiteAnalysis.Node.Basic
import SiteAnalysis.Node.Registry
import SiteAnalysis.Tree.Forest
import SiteAnalysis.Tree.Naming
import SiteAnalysis.Tree.Scope
import SiteAnalysis.Tree.Links
import SiteAnalysis.Node.Entries
import SiteAnalysis.Node.Check
import SiteAnalysis.Tree.Check
import SiteAnalysis.Tree.Text
import SiteAnalysis.Tree.TextReader
import SiteAnalysis.Tree.Document
import SiteAnalysis.Run.State
import SiteAnalysis.Run.Selection
import SiteAnalysis.Run.Collection
import SiteAnalysis.Run.Normalisation
import SiteAnalysis.Run.Fitting
import SiteAnalysis.Run.Phases
import SiteAnalysis.Procedure
import SiteAnalysis.Workbench
import SiteAnalysis.CommandLine
import SiteAnalysis.Main
import SiteAnalysis.Proofs.Text.Quoting
import SiteAnalysis.Proofs.Text.Grammar
import SiteAnalysis.Proofs.Text.Walk
import SiteAnalysis.Proofs.Number.Finite
import SiteAnalysis.Proofs.Number.Numeral
import SiteAnalysis.Proofs.Scalar.Structured
import SiteAnalysis.Proofs.Scalar.Identifier
import SiteAnalysis.Proofs.Expression.Shape
import SiteAnalysis.Proofs.Expression.Simplification
import SiteAnalysis.Proofs.Expression.Parts
import SiteAnalysis.Proofs.Expression.Levels
import SiteAnalysis.Proofs.Expression.Word
import SiteAnalysis.Proofs.Expression.Agreement
import SiteAnalysis.Proofs.Expression.Confirmation
import SiteAnalysis.Proofs.Expression.History
import SiteAnalysis.Proofs.Expression.Memory
import SiteAnalysis.Proofs.Expression.Stuck
import SiteAnalysis.Proofs.Json.Canonical
import SiteAnalysis.Proofs.Keyword.Data
import SiteAnalysis.Proofs.Keyword.Restored
import SiteAnalysis.Proofs.Keyword.Store
import SiteAnalysis.Proofs.Node.DynamicSite
import SiteAnalysis.Proofs.Node.Entries
import SiteAnalysis.Proofs.Node.Lines
import SiteAnalysis.Proofs.Node.Members
import SiteAnalysis.Proofs.Procedure.RoundTrip
import SiteAnalysis.Proofs.Tree.Visibility
import SiteAnalysis.Proofs.Tree.History
import SiteAnalysis.Proofs.Tree.FreeNames
import SiteAnalysis.Proofs.Procedure.Names
import SiteAnalysis.Proofs.Keyword.Calls
import SiteAnalysis.Proofs.Keyword.Quotes
import SiteAnalysis.Proofs.Keyword.Rereading
import SiteAnalysis.Proofs.Keyword.Pruned
import SiteAnalysis.Proofs.Keyword.Counted
import SiteAnalysis.Proofs.Tree.Meaning
import SiteAnalysis.Proofs.Tree.Updates
import SiteAnalysis.Proofs.Tree.Linking
import SiteAnalysis.Proofs.Tree.Dropping
import SiteAnalysis.Proofs.Tree.Uncounted
import SiteAnalysis.Proofs.Tree.Remains
import SiteAnalysis.Proofs.Procedure.Removal
import SiteAnalysis.Proofs.Tree.Parameters
import SiteAnalysis.Proofs.Run.Frames
import SiteAnalysis.Proofs.Run.Passes
import SiteAnalysis.Proofs.Run.Protocol
import SiteAnalysis.Proofs.Run.Standing
import SiteAnalysis.Proofs.Procedure.Skipping
import SiteAnalysis.Proofs.Tree.Outline
import SiteAnalysis.Proofs.Tree.BadLines
import SiteAnalysis.Proofs.Procedure.BadLines
import SiteAnalysis.Proofs.Tree.Types
import SiteAnalysis.Proofs.Procedure.Types
import SiteAnalysis.Proofs.Tree.Declared
import SiteAnalysis.Proofs.Procedure.References
import SiteAnalysis.Proofs.Run.Storing
import SiteAnalysis.Proofs.Procedure.Owners
import SiteAnalysis.Proofs.Expression.Numeral
import SiteAnalysis.Proofs.Expression.Spelling
import SiteAnalysis.Proofs.Expression.Prefixes
import SiteAnalysis.Proofs.Scalar.Literals
import SiteAnalysis.Proofs.Scalar.Arguments
import SiteAnalysis.Proofs.Number.Exact
import SiteAnalysis.Proofs.Geometry.Cell
import SiteAnalysis.Proofs.Geometry.Images
import SiteAnalysis.Proofs.Expression.Dependence
import SiteAnalysis.Proofs.Number.Powers
import SiteAnalysis.Proofs.Node.Parameters
import SiteAnalysis.Proofs.Tree.Renumbering
import SiteAnalysis.Proofs.Tree.UnknownBlocks
import SiteAnalysis.Proofs.Procedure.UnknownBlocks
import SiteAnalysis.Proofs.Keyword.Refusals
import SiteAnalysis.Proofs.Keyword.Targets
import SiteAnalysis.Proofs.Histogram.Counting
import SiteAnalysis.Proofs.Number.WordReal
import SiteAnalysis.Proofs.Histogram.Bins
import SiteAnalysis.Proofs.Histogram.Averages
import SiteAnalysis.Proofs.Run.Collecting
import SiteAnalysis.Proofs.Number.Difference
import SiteAnalysis.Proofs.Number.Whole
import SiteAnalysis.Proofs.Histogram.Sizes
import SiteAnalysis.Proofs.Run.Candidates
import SiteAnalysis.Proofs.Run.Selecting
import SiteAnalysis.Proofs.Histogram.Bins
import SiteAnalysis.Proofs.Number.Order
import SiteAnalysis.Proofs.Number.Truncation
import SiteAnalysis.Proofs.Minimise.Descent
import SiteAnalysis.Proofs.Configuration.Catalogue
import SiteAnalysis.Proofs.Geometry.Volume
import SiteAnalysis.Proofs.Scalar.Integers
