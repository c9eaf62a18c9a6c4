import Conformance.Bisection
import Conformance.Calendar
import Conformance.Check.App
import Conformance.Check.Basic
import Conformance.Check.Coverage
import Conformance.Check.Debt
import Conformance.Check.Endpoints
import Conformance.Check.Features
import Conformance.Check.Freshness
import Conformance.Check.Layering
import Conformance.Check.Placement
import Conformance.Check.References
import Conformance.Check.Registry
import Conformance.Check.Scripts
import Conformance.Check.TestBodies
import Conformance.Check.Tests
import Conformance.Check.Tidiness
import Conformance.Check.Validation
import Conformance.Cli.Arguments
import Conformance.Cli.Run
import Conformance.Document.Prose
import Conformance.Document.Reference
import Conformance.Endpoint.Entry
import Conformance.Endpoint.Hosting
import Conformance.Endpoint.HostingRule
import Conformance.Endpoint.Lexical
import Conformance.Endpoint.Manifest
import Conformance.Fault
import Conformance.FileSystem.Basic
import Conformance.FileSystem.Edit
import Conformance.FileSystem.Mount
import Conformance.FileSystem.Node
import Conformance.FileSystem.Trail
import Conformance.FileSystem.Walk
import Conformance.Json.Literal
import Conformance.Json.Reader
import Conformance.Json.Record
import Conformance.Json.Value
import Conformance.Layout
import Conformance.Main
import Conformance.Number.Binary
import Conformance.Number.Shortest
import Conformance.Path.Basic
import Conformance.Pattern.Basic
import Conformance.Pattern.Cursor
import Conformance.Pattern.Search
import Conformance.Proofs.Bisection
import Conformance.Proofs.Calendar.Spelling
import Conformance.Proofs.Calendar.Succession
import Conformance.Proofs.Check.AppComments
import Conformance.Proofs.Check.AppDeclarations
import Conformance.Proofs.Check.AppReferences
import Conformance.Proofs.Check.CommentedModules
import Conformance.Proofs.Check.ContentQuotes
import Conformance.Proofs.Check.DebtCompletion
import Conformance.Proofs.Check.DeclaredTypes
import Conformance.Proofs.Check.EmptyBodies
import Conformance.Proofs.Check.EndpointAgreement
import Conformance.Proofs.Check.EntryPointReading
import Conformance.Proofs.Check.Exposed
import Conformance.Proofs.Check.ExposedReading
import Conformance.Proofs.Check.Faults
import Conformance.Proofs.Check.FencedCode
import Conformance.Proofs.Check.Fileless
import Conformance.Proofs.Check.FocusedTests
import Conformance.Proofs.Check.GuideTable
import Conformance.Proofs.Check.HostingReading
import Conformance.Proofs.Check.ImportReading
import Conformance.Proofs.Check.Isolation
import Conformance.Proofs.Check.LineChecks
import Conformance.Proofs.Check.LineQuotes
import Conformance.Proofs.Check.LinkReading
import Conformance.Proofs.Check.NameQuotes
import Conformance.Proofs.Check.OneImport
import Conformance.Proofs.Check.OpenItems
import Conformance.Proofs.Check.Plain
import Conformance.Proofs.Check.RepeatedTypes
import Conformance.Proofs.Check.ReportAge
import Conformance.Proofs.Check.RootSpelling
import Conformance.Proofs.Check.Scan
import Conformance.Proofs.Check.ScriptLimits
import Conformance.Proofs.Check.SkippedTrees
import Conformance.Proofs.Check.Target
import Conformance.Proofs.Check.Unforged
import Conformance.Proofs.Check.ValidationEvidence
import Conformance.Proofs.Document.Headings
import Conformance.Proofs.Document.InlineCode
import Conformance.Proofs.Document.LocalTarget
import Conformance.Proofs.Document.Onward
import Conformance.Proofs.Document.Prose
import Conformance.Proofs.Document.WholeReferences
import Conformance.Proofs.Endpoint.Casing
import Conformance.Proofs.Endpoint.Configuration
import Conformance.Proofs.Endpoint.EntryPoint
import Conformance.Proofs.Endpoint.HostingRules
import Conformance.Proofs.Endpoint.Items
import Conformance.Proofs.Endpoint.MountedRoute
import Conformance.Proofs.Endpoint.Names
import Conformance.Proofs.Endpoint.Unambiguous
import Conformance.Proofs.FileSystem.DirsOnly
import Conformance.Proofs.FileSystem.Edits
import Conformance.Proofs.FileSystem.Growth
import Conformance.Proofs.FileSystem.Names
import Conformance.Proofs.FileSystem.Overwrite
import Conformance.Proofs.FileSystem.Reach
import Conformance.Proofs.FileSystem.Shape
import Conformance.Proofs.FileSystem.SortedPaths
import Conformance.Proofs.FileSystem.Visits
import Conformance.Proofs.FileSystem.Walks
import Conformance.Proofs.Json.Contents
import Conformance.Proofs.Json.Failures
import Conformance.Proofs.Json.Magnitudes
import Conformance.Proofs.Json.Numerals
import Conformance.Proofs.Json.Ranges
import Conformance.Proofs.Json.Records
import Conformance.Proofs.Json.Sequences
import Conformance.Proofs.Json.Spelling
import Conformance.Proofs.Json.Values
import Conformance.Proofs.Layout.Distinct
import Conformance.Proofs.Layout.Inspection
import Conformance.Proofs.Layout.Spelling
import Conformance.Proofs.Manifest.Bounds
import Conformance.Proofs.Manifest.ByteLexers
import Conformance.Proofs.Manifest.ByteScan
import Conformance.Proofs.Manifest.CommentInFront
import Conformance.Proofs.Manifest.Cuts
import Conformance.Proofs.Manifest.Fields
import Conformance.Proofs.Manifest.Keys
import Conformance.Proofs.Manifest.Lexing
import Conformance.Proofs.Manifest.Location
import Conformance.Proofs.Manifest.Nesting
import Conformance.Proofs.Manifest.RoundTrip
import Conformance.Proofs.Manifest.Scans
import Conformance.Proofs.Manifest.Uncommented
import Conformance.Proofs.Manifest.Written
import Conformance.Proofs.Number.Rounding
import Conformance.Proofs.Path.Components
import Conformance.Proofs.Path.NormalForm
import Conformance.Proofs.Path.Resolution
import Conformance.Proofs.Pattern.Anchored
import Conformance.Proofs.Pattern.Following
import Conformance.Proofs.Pattern.LineInFront
import Conformance.Proofs.Pattern.Matches
import Conformance.Proofs.Pattern.Members
import Conformance.Proofs.Pattern.Places
import Conformance.Proofs.Pattern.Quotation
import Conformance.Proofs.Pattern.Sightings
import Conformance.Proofs.Pattern.Surroundings
import Conformance.Proofs.Pattern.Ways
import Conformance.Proofs.Repeats
import Conformance.Proofs.Report.Color
import Conformance.Proofs.Report.Gate
import Conformance.Proofs.Report.Lines
import Conformance.Proofs.Report.Plain
import Conformance.Proofs.Source.AppTypes
import Conformance.Proofs.Source.CommentLine
import Conformance.Proofs.Source.Forms
import Conformance.Proofs.Source.ImportLines
import Conformance.Proofs.Source.ImportStatement
import Conformance.Proofs.Source.OpenClause
import Conformance.Proofs.Source.Program
import Conformance.Proofs.Source.RouteAppended
import Conformance.Proofs.Source.RouteBlocks
import Conformance.Proofs.Source.ScriptSize
import Conformance.Proofs.Source.Shebang
import Conformance.Proofs.Source.ShellWords
import Conformance.Proofs.Source.TypeDeclarations
import Conformance.Proofs.Steps
import Conformance.Proofs.Text.ByteOrder
import Conformance.Proofs.Text.Case
import Conformance.Proofs.Text.Classes
import Conformance.Proofs.Text.Lines
import Conformance.Proofs.Text.OneLine
import Conformance.Proofs.Text.Parts
import Conformance.Proofs.Text.PutIn
import Conformance.Proofs.Text.Trim
import Conformance.Repeats
import Conformance.Report.Render
import Conformance.Report.Result
import Conformance.Report.Style
import Conformance.Report.Violation
import Conformance.Source.AppType
import Conformance.Source.Comment
import Conformance.Source.ExportedType
import Conformance.Source.Import
import Conformance.Source.Route
import Conformance.Source.Script
import Conformance.Text.Blank
import Conformance.Text.Case
import Conformance.Text.Lines
import Conformance.Text.Offset
import Conformance.Text.Pieces
import Conformance.Text.Plain
import Conformance.Text.Quoted
import Conformance.Text.Word
import Conformance.Total
