import GrammarBatch.Text.Utf8
import GrammarBatch.Text.Lines
import GrammarBatch.Text.Quoted
import GrammarBatch.Text.Plain
import GrammarBatch.Glob.PatternSet
import GrammarBatch.Path.Grammar
import GrammarBatch.Decimal.Shortest
import GrammarBatch.Json.Text
import GrammarBatch.Json.Number
import GrammarBatch.Json.Schema
import GrammarBatch.Json.Printer
import GrammarBatch.Config.Absolute
import GrammarBatch.Config.Reader
import GrammarBatch.Config.Printer
import GrammarBatch.Config.Overrides
import GrammarBatch.Discovery.Filter
import GrammarBatch.Tool.Batch
import GrammarBatch.Tool.Diagnostic
import GrammarBatch.CommandLine.Invocation
import GrammarBatch.Files.Folders
import GrammarBatch.Files.Walk
import GrammarBatch.Script.Basic
import GrammarBatch.Program
import GrammarBatch.Main
import GrammarBatch.Proofs.Glob.Pattern
import GrammarBatch.Proofs.Discovery.Scan
import GrammarBatch.Proofs.Glob.PatternSet
import GrammarBatch.Proofs.Config.Absolute
import GrammarBatch.Proofs.Files.Folders
import GrammarBatch.Proofs.Pass.Stages
import GrammarBatch.Proofs.Pass.Order
import GrammarBatch.Proofs.Text.Lines
import GrammarBatch.Proofs.Tool.Verdict
import GrammarBatch.Proofs.Discovery.Files
import GrammarBatch.Proofs.Config.SpelledOut
import GrammarBatch.Proofs.CommandLine.Scopes
import GrammarBatch.Proofs.Program.Preview
import GrammarBatch.Proofs.Json.Text
import GrammarBatch.Proofs.Json.Number
import GrammarBatch.Proofs.Json.Schema
import GrammarBatch.Proofs.Json.Results
import GrammarBatch.Proofs.Config.RoundTrip
import GrammarBatch.Proofs.Files.FromRoot
import GrammarBatch.Proofs.Config.Independent
import GrammarBatch.Proofs.Json.Fields
import GrammarBatch.Proofs.Config.Layers
import GrammarBatch.Proofs.Tool.Lookup
import GrammarBatch.Proofs.Files.Links
import GrammarBatch.Proofs.Discovery.Links
import GrammarBatch.Proofs.Tool.Tags
import GrammarBatch.Proofs.Text.ByteOrder
import GrammarBatch.Proofs.Glob.PatternMap
import GrammarBatch.Proofs.Glob.History
import GrammarBatch.Proofs.Pass.Frame
import GrammarBatch.Proofs.CommandLine.Reading
import GrammarBatch.Proofs.CommandLine.Essentials
import GrammarBatch.Proofs.Program.Build
import GrammarBatch.Proofs.Path.Rest
import GrammarBatch.Proofs.Path.Mirror
import GrammarBatch.Proofs.Config.Beside
import GrammarBatch.Proofs.Files.Missing
import GrammarBatch.Proofs.Pass.Sources
import GrammarBatch.Proofs.Glob.Respelled
import GrammarBatch.Proofs.Discovery.Combined
import GrammarBatch.Proofs.Config.Members
import GrammarBatch.Proofs.CommandLine.AnyOrder
import GrammarBatch.Proofs.Config.Overlay
import GrammarBatch.Proofs.Script.Setters
import GrammarBatch.Proofs.Tool.Arguments
import GrammarBatch.Proofs.Script.Directives
import GrammarBatch.Proofs.Tool.Flags
import GrammarBatch.Proofs.CommandLine.Accepted
import GrammarBatch.Proofs.CommandLine.Moved
import GrammarBatch.Proofs.Program.Listing
import GrammarBatch.Proofs.Glob.Turns
import GrammarBatch.Proofs.Path.Sorted
