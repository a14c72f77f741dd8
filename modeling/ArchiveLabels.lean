import ArchiveLabels.CommandLine.Basic
import ArchiveLabels.CommandLine.Help
import ArchiveLabels.CommandLine.Perform
import ArchiveLabels.CommandLine.Reach
import ArchiveLabels.CommandLine.Reader
import ArchiveLabels.Config.Basic
import ArchiveLabels.Config.Codec
import ArchiveLabels.Config.Environment
import ArchiveLabels.Config.Load
import ArchiveLabels.Crawl.Admission
import ArchiveLabels.Crawl.Checkpoint
import ArchiveLabels.Crawl.Crawler
import ArchiveLabels.Crawl.Error
import ArchiveLabels.Crawl.Exclusions
import ArchiveLabels.Crawl.Filter
import ArchiveLabels.Crawl.Inventory
import ArchiveLabels.Crawl.Manifest
import ArchiveLabels.Crawl.RecordCache
import ArchiveLabels.Crawl.Walk
import ArchiveLabels.Extraction.Basic
import ArchiveLabels.Extraction.Checks
import ArchiveLabels.Extraction.Extract
import ArchiveLabels.Extraction.Legacy
import ArchiveLabels.Extraction.Modern
import ArchiveLabels.FileSystem.Basic
import ArchiveLabels.FileSystem.Operations
import ArchiveLabels.FileSystem.Resolve
import ArchiveLabels.Harvest.Attach
import ArchiveLabels.Harvest.Error
import ArchiveLabels.Harvest.Harvester
import ArchiveLabels.Harvest.RecordOutput
import ArchiveLabels.Harvest.Run
import ArchiveLabels.Integrity
import ArchiveLabels.Json.Basic
import ArchiveLabels.Json.Decode
import ArchiveLabels.Json.Merge
import ArchiveLabels.Json.Pieces
import ArchiveLabels.Json.Reader
import ArchiveLabels.Json.Writer
import ArchiveLabels.Label.Dialect
import ArchiveLabels.Label.Reading
import ArchiveLabels.Label.Tree
import ArchiveLabels.Main
import ArchiveLabels.Odl.Basic
import ArchiveLabels.Odl.Nesting
import ArchiveLabels.Odl.Scanner
import ArchiveLabels.Odl.Statements
import ArchiveLabels.Path
import ArchiveLabels.Policy
import ArchiveLabels.Record.Basic
import ArchiveLabels.Record.Codec
import ArchiveLabels.Record.Identifier
import ArchiveLabels.Record.Problem
import ArchiveLabels.Record.Schema
import ArchiveLabels.Record.Statistics
import ArchiveLabels.Report.Totals
import ArchiveLabels.Report.Writer
import ArchiveLabels.Selector.Basic
import ArchiveLabels.Selector.Pattern
import ArchiveLabels.Selector.Reader
import ArchiveLabels.Selector.Select
import ArchiveLabels.Table
import ArchiveLabels.Text.Alphanumeric
import ArchiveLabels.Text.Blank
import ArchiveLabels.Text.Cursor
import ArchiveLabels.Text.Delimited
import ArchiveLabels.Text.Digits
import ArchiveLabels.Text.Fold
import ArchiveLabels.Text.Lines
import ArchiveLabels.Text.Utf8
import ArchiveLabels.Time.Calendar
import ArchiveLabels.Time.Reader
import ArchiveLabels.Time.Timestamp
import ArchiveLabels.Toml.Bare
import ArchiveLabels.Toml.Layout
import ArchiveLabels.Toml.Moment
import ArchiveLabels.Toml.Quoted
import ArchiveLabels.Toml.Reader
import ArchiveLabels.Toml.Table
import ArchiveLabels.Wildcard.Basic
import ArchiveLabels.Wildcard.Collection
import ArchiveLabels.Wildcard.Expression
import ArchiveLabels.Wildcard.Lookup
import ArchiveLabels.Wildcard.Places
import ArchiveLabels.Wildcard.Reader
import ArchiveLabels.Xml.Character
import ArchiveLabels.Xml.Elements
import ArchiveLabels.Xml.Fault
import ArchiveLabels.Xml.Markup
import ArchiveLabels.Xml.Reference
import ArchiveLabels.Proofs.Crawl.Tour
import ArchiveLabels.Proofs.Crawl.Admitted
import ArchiveLabels.Proofs.Crawl.Accounting
import ArchiveLabels.Proofs.Path.Absolute
import ArchiveLabels.Proofs.Path.Order
import ArchiveLabels.Proofs.FileSystem.Leads
import ArchiveLabels.Proofs.FileSystem.Trail
import ArchiveLabels.Proofs.Crawl.Once
import ArchiveLabels.Proofs.FileSystem.Frame
import ArchiveLabels.Proofs.Harvest.Steps
import ArchiveLabels.Proofs.Harvest.Failure
import ArchiveLabels.Proofs.FileSystem.Blank
import ArchiveLabels.Proofs.FileSystem.Matching
import ArchiveLabels.Proofs.Crawl.Leaders
import ArchiveLabels.Proofs.Crawl.Refresh
import ArchiveLabels.Proofs.Harvest.Success
import ArchiveLabels.Proofs.Harvest.Cycle
import ArchiveLabels.Proofs.Harvest.Incremental
import ArchiveLabels.Proofs.Crawl.Again
import ArchiveLabels.Proofs.Crawl.RootOrder
import ArchiveLabels.Proofs.FileSystem.Reaches
import ArchiveLabels.Proofs.Crawl.Isolation
import ArchiveLabels.Proofs.Harvest.Attach
import ArchiveLabels.Proofs.Harvest.Reported
import ArchiveLabels.Proofs.Integrity.Unmatched
import ArchiveLabels.Proofs.Label.PreOrder
import ArchiveLabels.Proofs.Label.Growth
import ArchiveLabels.Proofs.Selector.Pattern
import ArchiveLabels.Proofs.Selector.Selection
import ArchiveLabels.Proofs.Odl.Scanner
import ArchiveLabels.Proofs.Odl.Written
import ArchiveLabels.Proofs.Odl.Steps
import ArchiveLabels.Proofs.Odl.RoundTrip
import ArchiveLabels.Proofs.Text.Alphanumeric
import ArchiveLabels.Proofs.Text.Numerals
import ArchiveLabels.Proofs.Selector.Written
import ArchiveLabels.Proofs.Selector.Tokens
import ArchiveLabels.Proofs.Selector.RoundTrip
import ArchiveLabels.Proofs.Json.Tokens
import ArchiveLabels.Proofs.Json.RoundTrip
import ArchiveLabels.Proofs.Json.Decode
import ArchiveLabels.Proofs.Time.Calendar
import ArchiveLabels.Proofs.Time.RoundTrip
import ArchiveLabels.Proofs.Crawl.Restart
import ArchiveLabels.Proofs.Record.RoundTrip
import ArchiveLabels.Proofs.Record.Lines
import ArchiveLabels.Proofs.Harvest.Appended
import ArchiveLabels.Proofs.Report.JsonLines
import ArchiveLabels.Proofs.Report.Sums
import ArchiveLabels.Proofs.Odl.Nested
import ArchiveLabels.Proofs.Odl.Reading
import ArchiveLabels.Proofs.Odl.Passage
import ArchiveLabels.Proofs.Odl.Positions
import ArchiveLabels.Proofs.Odl.Spelling
import ArchiveLabels.Proofs.Odl.Respelling
import ArchiveLabels.Proofs.Odl.Rounds
import ArchiveLabels.Proofs.Odl.Progress
import ArchiveLabels.Proofs.Text.Blank
import ArchiveLabels.Proofs.Firsts
import ArchiveLabels.Proofs.Extraction.WellFormed
import ArchiveLabels.Proofs.Crawl.LastRecords
import ArchiveLabels.Proofs.Extraction.Associations
import ArchiveLabels.Proofs.Json.Layers
import ArchiveLabels.Proofs.Json.Tables
import ArchiveLabels.Proofs.Toml.Tables
import ArchiveLabels.Proofs.Config.Environment
import ArchiveLabels.Proofs.Config.Settings
import ArchiveLabels.Proofs.Config.Layers
import ArchiveLabels.Proofs.Config.Load
import ArchiveLabels.Proofs.Label.Traversal
import ArchiveLabels.Proofs.Extraction.Gathered
import ArchiveLabels.Proofs.Text.Utf8
import ArchiveLabels.Proofs.Crawl.Candidates
import ArchiveLabels.Proofs.Crawl.Checksums
import ArchiveLabels.Proofs.Crawl.Exclusions
import ArchiveLabels.Proofs.Record.Identifier
import ArchiveLabels.Proofs.Crawl.Inventory
