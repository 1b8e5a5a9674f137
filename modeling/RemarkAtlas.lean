import RemarkAtlas.CommandLine.Arguments
import RemarkAtlas.CommandLine.Invocation
import RemarkAtlas.Corpus.Functions
import RemarkAtlas.Corpus.Message
import RemarkAtlas.Corpus.NoiseFilter
import RemarkAtlas.Corpus.Passes
import RemarkAtlas.Corpus.Precision
import RemarkAtlas.Corpus.Ranking
import RemarkAtlas.Corpus.Sighting
import RemarkAtlas.Disk.BufferedFile
import RemarkAtlas.Disk.Changes
import RemarkAtlas.Disk.Entry
import RemarkAtlas.Disk.FileSystem
import RemarkAtlas.Disk.Limits
import RemarkAtlas.Disk.Path
import RemarkAtlas.Disk.Scan
import RemarkAtlas.Document.Fault
import RemarkAtlas.Document.Field
import RemarkAtlas.Document.Graph
import RemarkAtlas.Document.Passes
import RemarkAtlas.Document.Reader
import RemarkAtlas.Document.Records
import RemarkAtlas.Document.Writer
import RemarkAtlas.Gzip.Bits
import RemarkAtlas.Gzip.Huffman
import RemarkAtlas.Gzip.Inflate
import RemarkAtlas.Gzip.Member
import RemarkAtlas.Gzip.Writer
import RemarkAtlas.Html.Escape
import RemarkAtlas.Html.Site
import RemarkAtlas.Html.Source
import RemarkAtlas.Html.Table
import RemarkAtlas.Json.Outline
import RemarkAtlas.Json.Printer
import RemarkAtlas.Json.Reader
import RemarkAtlas.Json.Token
import RemarkAtlas.Json.Value
import RemarkAtlas.Load.FilterFile
import RemarkAtlas.Load.RecordFile
import RemarkAtlas.Main
import RemarkAtlas.Number.Double
import RemarkAtlas.Number.Shortest
import RemarkAtlas.Order.Groups
import RemarkAtlas.Order.NameMap
import RemarkAtlas.Order.NameSet
import RemarkAtlas.Proofs.Corpus.Counts
import RemarkAtlas.Proofs.Corpus.Filtering
import RemarkAtlas.Proofs.Corpus.Functions
import RemarkAtlas.Proofs.Corpus.Noise
import RemarkAtlas.Proofs.Corpus.Outline
import RemarkAtlas.Proofs.Corpus.Passes
import RemarkAtlas.Proofs.Corpus.Places
import RemarkAtlas.Proofs.Corpus.Precision
import RemarkAtlas.Proofs.Corpus.Ranking
import RemarkAtlas.Proofs.Corpus.Rearrangement
import RemarkAtlas.Proofs.Corpus.Reconciliation
import RemarkAtlas.Proofs.Corpus.Views
import RemarkAtlas.Proofs.Disk.Alike
import RemarkAtlas.Proofs.Disk.BufferedFile
import RemarkAtlas.Proofs.Disk.Descent
import RemarkAtlas.Proofs.Disk.Entry
import RemarkAtlas.Proofs.Disk.Frame
import RemarkAtlas.Proofs.Disk.Lacking
import RemarkAtlas.Proofs.Disk.Listing
import RemarkAtlas.Proofs.Disk.Naming
import RemarkAtlas.Proofs.Disk.PathOrder
import RemarkAtlas.Proofs.Disk.Removal
import RemarkAtlas.Proofs.Disk.Route
import RemarkAtlas.Proofs.Disk.Scan
import RemarkAtlas.Proofs.Disk.Writing
import RemarkAtlas.Proofs.Document.Acceptance
import RemarkAtlas.Proofs.Document.CountValue
import RemarkAtlas.Proofs.Document.Erasure
import RemarkAtlas.Proofs.Document.FieldAcceptance
import RemarkAtlas.Proofs.Document.FieldRoundTrip
import RemarkAtlas.Proofs.Document.Forest
import RemarkAtlas.Proofs.Document.Grammar
import RemarkAtlas.Proofs.Document.Graph
import RemarkAtlas.Proofs.Document.GraphRoundTrip
import RemarkAtlas.Proofs.Document.Listing
import RemarkAtlas.Proofs.Document.PassRoundTrip
import RemarkAtlas.Proofs.Document.PassTable
import RemarkAtlas.Proofs.Document.Reading
import RemarkAtlas.Proofs.Document.Records
import RemarkAtlas.Proofs.Document.RoundTrip
import RemarkAtlas.Proofs.Document.Spelling
import RemarkAtlas.Proofs.Document.Successors
import RemarkAtlas.Proofs.Document.Synonym
import RemarkAtlas.Proofs.Document.Unread
import RemarkAtlas.Proofs.Document.WellFormed
import RemarkAtlas.Proofs.Gzip.Checksum
import RemarkAtlas.Proofs.Gzip.Member
import RemarkAtlas.Proofs.Gzip.Stored
import RemarkAtlas.Proofs.Html.Address
import RemarkAtlas.Proofs.Html.Display
import RemarkAtlas.Proofs.Html.Escape
import RemarkAtlas.Proofs.Html.Grammar
import RemarkAtlas.Proofs.Html.Inline
import RemarkAtlas.Proofs.Html.Message
import RemarkAtlas.Proofs.Html.PageName
import RemarkAtlas.Proofs.Html.Reading
import RemarkAtlas.Proofs.Html.Site
import RemarkAtlas.Proofs.Html.SourcePage
import RemarkAtlas.Proofs.Html.Tables
import RemarkAtlas.Proofs.Html.Tokens
import RemarkAtlas.Proofs.Html.VisibleText
import RemarkAtlas.Proofs.Json.Cut
import RemarkAtlas.Proofs.Json.NumberText
import RemarkAtlas.Proofs.Json.Outlines
import RemarkAtlas.Proofs.Json.Pieces
import RemarkAtlas.Proofs.Json.Reading
import RemarkAtlas.Proofs.Json.Strings
import RemarkAtlas.Proofs.Load.Compression
import RemarkAtlas.Proofs.Load.Directory
import RemarkAtlas.Proofs.Load.RecordFile
import RemarkAtlas.Proofs.Load.Skipping
import RemarkAtlas.Proofs.Order.Groups
import RemarkAtlas.Proofs.Order.StableSort
import RemarkAtlas.Proofs.Record.Counts
import RemarkAtlas.Proofs.Record.Flatten
import RemarkAtlas.Proofs.Record.Traversal
import RemarkAtlas.Proofs.Report.Coherence
import RemarkAtlas.Proofs.Report.Frame
import RemarkAtlas.Proofs.Report.InputFaults
import RemarkAtlas.Proofs.Report.Links
import RemarkAtlas.Proofs.Report.Markup
import RemarkAtlas.Proofs.Report.MessageLinks
import RemarkAtlas.Proofs.Report.Noise
import RemarkAtlas.Proofs.Report.Overwriting
import RemarkAtlas.Proofs.Report.Pages
import RemarkAtlas.Proofs.Report.Rows
import RemarkAtlas.Proofs.Report.Skipping
import RemarkAtlas.Proofs.Report.Statistics
import RemarkAtlas.Proofs.Report.SummaryFile
import RemarkAtlas.Proofs.Report.SummaryText
import RemarkAtlas.Proofs.Report.TextTable
import RemarkAtlas.Proofs.Report.TwoRuns
import RemarkAtlas.Proofs.Text.Lines
import RemarkAtlas.Proofs.Text.Utf8
import RemarkAtlas.Proofs.Unit.PassForest
import RemarkAtlas.Proofs.Unit.WellFormed
import RemarkAtlas.Record.Basic
import RemarkAtlas.Record.FlowGraph
import RemarkAtlas.Record.Location
import RemarkAtlas.Record.Unit
import RemarkAtlas.Record.Walk
import RemarkAtlas.Report.Output
import RemarkAtlas.Report.Run
import RemarkAtlas.Report.Summary
import RemarkAtlas.Report.SummaryReader
import RemarkAtlas.Report.TextTable
import RemarkAtlas.Report.Validation
import RemarkAtlas.Text.Affix
import RemarkAtlas.Text.Lines
import RemarkAtlas.Text.Utf8
import RemarkAtlas.Toml.Literal
import RemarkAtlas.Toml.Reader
import RemarkAtlas.Toml.Text
import RemarkAtlas.Toml.Value
