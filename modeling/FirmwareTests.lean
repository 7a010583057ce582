import FirmwareTests.Bench.Config
import FirmwareTests.Bench.Failure
import FirmwareTests.Bench.Host
import FirmwareTests.Bench.Run
import FirmwareTests.Bench.ScriptedHost
import FirmwareTests.Command.Execution
import FirmwareTests.Command.Failure
import FirmwareTests.Command.Footprint
import FirmwareTests.Command.Line
import FirmwareTests.Console.Terminal
import FirmwareTests.Console.Summary
import FirmwareTests.Files.Fault
import FirmwareTests.Files.FileSystem
import FirmwareTests.Log.Filter
import FirmwareTests.Log.Record
import FirmwareTests.Main
import FirmwareTests.Markup.Attribute
import FirmwareTests.Markup.Entity
import FirmwareTests.Markup.Error
import FirmwareTests.Markup.Reading
import FirmwareTests.Markup.Scan
import FirmwareTests.Markup.Token
import FirmwareTests.Number.Fixed
import FirmwareTests.Proofs.Markup.Boundary
import FirmwareTests.Reports.Builder
import FirmwareTests.Reports.NameMap
import FirmwareTests.Reports.OnDisk
import FirmwareTests.Reports.ResultSet
import FirmwareTests.Reports.Report
import FirmwareTests.Reports.Retitle
import FirmwareTests.Text.Segments
import FirmwareTests.Text.Quoted
import FirmwareTests.Text.Utf8
import FirmwareTests.Proofs.Markup.Grammar
import FirmwareTests.Proofs.Markup.Spelling
import FirmwareTests.Proofs.Markup.Rendering
import FirmwareTests.Proofs.Markup.Nesting
import FirmwareTests.Proofs.Markup.Faults
import FirmwareTests.Proofs.Markup.AttributeRow
import FirmwareTests.Proofs.Markup.Escaping
import FirmwareTests.Proofs.Reports.Progress
import FirmwareTests.Proofs.Markup.Rereading
import FirmwareTests.Proofs.Reports.Titles
import FirmwareTests.Proofs.Reports.Outline
import FirmwareTests.Proofs.Reports.Retitling
import FirmwareTests.Proofs.Reports.SuiteName
import FirmwareTests.Proofs.Reports.Histories
import FirmwareTests.Proofs.Reports.LastTitle
import FirmwareTests.Proofs.Markup.Forest
import FirmwareTests.Proofs.Reports.TreeReading
import FirmwareTests.Proofs.Reports.TreeReport
import FirmwareTests.Proofs.Markup.Continuation
import FirmwareTests.Proofs.Reports.LaterElements
import FirmwareTests.Proofs.Markup.Truncation
import FirmwareTests.Proofs.Reports.Truncation
import FirmwareTests.Proofs.Reports.Verdicts
import FirmwareTests.Proofs.Files.Destination
import FirmwareTests.Proofs.Files.Changes
import FirmwareTests.Proofs.Files.Agreement
import FirmwareTests.Proofs.Bench.Operations
import FirmwareTests.Proofs.Bench.Effects
import FirmwareTests.Proofs.Bench.Relocation
import FirmwareTests.Proofs.Bench.FirstFailure
import FirmwareTests.Proofs.Bench.Completion
import FirmwareTests.Proofs.Bench.Alike
import FirmwareTests.Proofs.Bench.Leftovers
import FirmwareTests.Proofs.Reports.NameMaps
import FirmwareTests.Proofs.Reports.ResultSets
import FirmwareTests.Proofs.Console.Summaries
import FirmwareTests.Proofs.Command.Showing
import FirmwareTests.Proofs.Markup.Elements
import FirmwareTests.Proofs.Reports.Writing
import FirmwareTests.Proofs.Reports.Counts
import FirmwareTests.Proofs.Markup.Canonical
import FirmwareTests.Proofs.Reports.ExactRetitling
import FirmwareTests.Proofs.Console.Limits
import FirmwareTests.Proofs.Console.Highlighting
import FirmwareTests.Proofs.Console.Decoding
import FirmwareTests.Proofs.Markup.Remarks
import FirmwareTests.Proofs.Reports.Remarks
import FirmwareTests.Proofs.Text.Numerals
import FirmwareTests.Proofs.Reports.DeclaredCounts
import FirmwareTests.Proofs.Reports.RootAttributes
import FirmwareTests.Proofs.Reports.SuiteDocuments
import FirmwareTests.Proofs.Reports.WrittenSuites
import FirmwareTests.Proofs.Files.Outcomes
import FirmwareTests.Proofs.Bench.Outcomes
import FirmwareTests.Proofs.Command.AllOrNothing
import FirmwareTests.Proofs.Command.Outcomes
import FirmwareTests.Proofs.Reports.TestNames
import FirmwareTests.Proofs.Reports.Retitler
import FirmwareTests.Proofs.Reports.States
import FirmwareTests.Proofs.Octets.Scan
import FirmwareTests.Proofs.Text.Decoding
import FirmwareTests.Proofs.Text.Octets
import FirmwareTests.Proofs.Octets.Attributes
import FirmwareTests.Proofs.Octets.Retitling
import FirmwareTests.Proofs.Octets.Tags
import FirmwareTests.Proofs.Octets.Constructs
import FirmwareTests.Proofs.Octets.Documents
