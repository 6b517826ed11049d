import FrontLint.Cache
import FrontLint.Calendar
import FrontLint.CommandLine.Arguments
import FrontLint.CommandLine.Flag
import FrontLint.CommandLine.Session
import FrontLint.CommandLine.Usage
import FrontLint.CommandLine.Word
import FrontLint.Document.Block
import FrontLint.Document.KeyIndex
import FrontLint.Document.Lines
import FrontLint.Fault
import FrontLint.Files.Fault
import FrontLint.Files.Glob
import FrontLint.Files.Path
import FrontLint.Files.Selection
import FrontLint.Files.Tree
import FrontLint.Files.Wildcard
import FrontLint.Hash.SipHash
import FrontLint.Hash.Table
import FrontLint.Linter
import FrontLint.Main
import FrontLint.Note
import FrontLint.Number.Binary64
import FrontLint.Number.FloatText
import FrontLint.Number.Numeral
import FrontLint.Projection
import FrontLint.Proofs.Cache.AddedFile
import FrontLint.Proofs.Cache.Away
import FrontLint.Proofs.Cache.Confined
import FrontLint.Proofs.Cache.Creation
import FrontLint.Proofs.Cache.Deposit
import FrontLint.Proofs.Cache.GivenBase
import FrontLint.Proofs.Cache.Mirror
import FrontLint.Proofs.Cache.Neighbours
import FrontLint.Proofs.Cache.Overlap
import FrontLint.Proofs.Cache.Place
import FrontLint.Proofs.Cache.ReadBack
import FrontLint.Proofs.Cache.RelativeBase
import FrontLint.Proofs.Cache.Store
import FrontLint.Proofs.CommandLine.Flags
import FrontLint.Proofs.CommandLine.Load
import FrontLint.Proofs.CommandLine.Outcome
import FrontLint.Proofs.Document.Block
import FrontLint.Proofs.Document.Declarations
import FrontLint.Proofs.Document.EntryLines
import FrontLint.Proofs.Document.Flat
import FrontLint.Proofs.Document.Insertion
import FrontLint.Proofs.Document.KeyIndex
import FrontLint.Proofs.Document.LineEnds
import FrontLint.Proofs.Document.Span
import FrontLint.Proofs.Document.Unreadable
import FrontLint.Proofs.Files.Added
import FrontLint.Proofs.Files.AddedMatches
import FrontLint.Proofs.Files.AddedSelection
import FrontLint.Proofs.Files.Behind
import FrontLint.Proofs.Files.Consults
import FrontLint.Proofs.Files.Contents
import FrontLint.Proofs.Files.Expansion
import FrontLint.Proofs.Files.Leads
import FrontLint.Proofs.Files.LinkFree
import FrontLint.Proofs.Files.Matches
import FrontLint.Proofs.Files.Nested
import FrontLint.Proofs.Files.Operation
import FrontLint.Proofs.Files.PathJoin
import FrontLint.Proofs.Files.PathText
import FrontLint.Proofs.Files.Result
import FrontLint.Proofs.Files.Selection
import FrontLint.Proofs.Files.Spelling
import FrontLint.Proofs.Files.WellFormed
import FrontLint.Proofs.Files.Within
import FrontLint.Proofs.Linter.Output
import FrontLint.Proofs.Linter.Relocation
import FrontLint.Proofs.Linter.Removal
import FrontLint.Proofs.Linter.Reports
import FrontLint.Proofs.Projection.Body
import FrontLint.Proofs.Projection.FieldText
import FrontLint.Proofs.Projection.Flat
import FrontLint.Proofs.Projection.Insertion
import FrontLint.Proofs.Projection.Layout
import FrontLint.Proofs.Projection.LineEnds
import FrontLint.Proofs.Projection.LinePreservation
import FrontLint.Proofs.Projection.Outcome
import FrontLint.Proofs.Projection.Prose
import FrontLint.Proofs.Projection.Slot
import FrontLint.Proofs.Run.Accounting
import FrontLint.Proofs.Run.AddedFile
import FrontLint.Proofs.Run.Coordinates
import FrontLint.Proofs.Run.Counting
import FrontLint.Proofs.Run.NoTrace
import FrontLint.Proofs.Run.PatternOrder
import FrontLint.Proofs.Run.Progress
import FrontLint.Proofs.Run.Reprojection
import FrontLint.Proofs.Run.Stages
import FrontLint.Proofs.Run.Take
import FrontLint.Proofs.Run.Together
import FrontLint.Proofs.Text.Blank
import FrontLint.Proofs.Text.Utf8
import FrontLint.Proofs.Text.Word
import FrontLint.Proofs.Value.Scalar
import FrontLint.Proofs.Yaml.Abreast
import FrontLint.Proofs.Yaml.AbreastFilling
import FrontLint.Proofs.Yaml.AbreastRun
import FrontLint.Proofs.Yaml.After
import FrontLint.Proofs.Yaml.AlikeFlow
import FrontLint.Proofs.Yaml.AlikeReading
import FrontLint.Proofs.Yaml.AlikeStream
import FrontLint.Proofs.Yaml.BlockLevel
import FrontLint.Proofs.Yaml.Closing
import FrontLint.Proofs.Yaml.Confinement
import FrontLint.Proofs.Yaml.Descent
import FrontLint.Proofs.Yaml.EntryGraph
import FrontLint.Proofs.Yaml.EntryTokens
import FrontLint.Proofs.Yaml.Extending
import FrontLint.Proofs.Yaml.Filling
import FrontLint.Proofs.Yaml.FlatGraph
import FrontLint.Proofs.Yaml.FlatTokens
import FrontLint.Proofs.Yaml.FlatValue
import FrontLint.Proofs.Yaml.FlowBalance
import FrontLint.Proofs.Yaml.FlowLevel
import FrontLint.Proofs.Yaml.Fuel
import FrontLint.Proofs.Yaml.LineEnds
import FrontLint.Proofs.Yaml.MergeSteps
import FrontLint.Proofs.Yaml.Merging
import FrontLint.Proofs.Yaml.MirroredMerges
import FrontLint.Proofs.Yaml.MirroredReadout
import FrontLint.Proofs.Yaml.Moved
import FrontLint.Proofs.Yaml.Outcomes
import FrontLint.Proofs.Yaml.Plain
import FrontLint.Proofs.Yaml.PlainReadout
import FrontLint.Proofs.Yaml.Postcondition
import FrontLint.Proofs.Yaml.Preserving
import FrontLint.Proofs.Yaml.Reading
import FrontLint.Proofs.Yaml.Readout
import FrontLint.Proofs.Yaml.References
import FrontLint.Proofs.Yaml.Resumption
import FrontLint.Proofs.Yaml.ScalarFault
import FrontLint.Proofs.Yaml.ScalarMapping
import FrontLint.Proofs.Yaml.SettledMerges
import FrontLint.Proofs.Yaml.Shifting
import FrontLint.Proofs.Yaml.Steps
import FrontLint.Proofs.Yaml.Supply
import FrontLint.Proofs.Yaml.UnsettledMerges
import FrontLint.Run
import FrontLint.Settings
import FrontLint.Text.Base64
import FrontLint.Text.Basic
import FrontLint.Text.Blank
import FrontLint.Text.LowerCase
import FrontLint.Text.Printable
import FrontLint.Text.Quoted
import FrontLint.Text.Utf8
import FrontLint.Text.Word
import FrontLint.Value.Basic
import FrontLint.Value.Text
import FrontLint.Yaml.Construction
import FrontLint.Yaml.Cursor
import FrontLint.Yaml.Fault
import FrontLint.Yaml.Graph.Basic
import FrontLint.Yaml.Graph.Grammar
import FrontLint.Yaml.Graph.Merge
import FrontLint.Yaml.Scalar
import FrontLint.Yaml.Schema
import FrontLint.Yaml.Tag
import FrontLint.Yaml.Timestamp
import FrontLint.Yaml.Token.Basic
import FrontLint.Yaml.Token.Block
import FrontLint.Yaml.Token.Flow
import FrontLint.Yaml.Token.Name
import FrontLint.Yaml.Token.Stream
