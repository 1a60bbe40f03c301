import SymbolAtlas.Binding.Basic
import SymbolAtlas.Binding.Infer
import SymbolAtlas.Binding.Json
import SymbolAtlas.Boundary.Candidate
import SymbolAtlas.Boundary.Json
import SymbolAtlas.Boundary.Plan
import SymbolAtlas.Chunk.Basic
import SymbolAtlas.Chunk.Json
import SymbolAtlas.Chunk.Split
import SymbolAtlas.CommandLine.Arguments
import SymbolAtlas.CommandLine.Run
import SymbolAtlas.Extract.Basic
import SymbolAtlas.Extract.Call
import SymbolAtlas.Extract.Textual
import SymbolAtlas.Extract.Walk
import SymbolAtlas.Failure
import SymbolAtlas.Files.Disk
import SymbolAtlas.Files.Glob
import SymbolAtlas.Files.Ignore
import SymbolAtlas.Files.Walk
import SymbolAtlas.Graph.Basic
import SymbolAtlas.Graph.Index
import SymbolAtlas.Graph.Json
import SymbolAtlas.Graph.Link
import SymbolAtlas.Graph.Net
import SymbolAtlas.Graph.Pool
import SymbolAtlas.Graph.Query
import SymbolAtlas.Graph.Vertex
import SymbolAtlas.Json.Basic
import SymbolAtlas.Json.Read
import SymbolAtlas.Main
import SymbolAtlas.Mask.Basic
import SymbolAtlas.Mask.Scanner
import SymbolAtlas.Numeric.Binary
import SymbolAtlas.Numeric.Decimal
import SymbolAtlas.Parse.Basic
import SymbolAtlas.Proofs.Binding.BoundTypes
import SymbolAtlas.Proofs.Binding.Memo
import SymbolAtlas.Proofs.Boundary.Candidate
import SymbolAtlas.Proofs.Boundary.Choice
import SymbolAtlas.Proofs.Boundary.Origin
import SymbolAtlas.Proofs.Boundary.Packing
import SymbolAtlas.Proofs.Boundary.Pieces
import SymbolAtlas.Proofs.Chunk.Balance
import SymbolAtlas.Proofs.Chunk.Place
import SymbolAtlas.Proofs.Chunk.Size
import SymbolAtlas.Proofs.Chunk.Tiling
import SymbolAtlas.Proofs.Extract.Agreement
import SymbolAtlas.Proofs.Extract.Paths
import SymbolAtlas.Proofs.Extract.Records
import SymbolAtlas.Proofs.Extract.Surroundings
import SymbolAtlas.Proofs.Graph.Files
import SymbolAtlas.Proofs.Graph.History
import SymbolAtlas.Proofs.Graph.Index
import SymbolAtlas.Proofs.Graph.Indexing
import SymbolAtlas.Proofs.Graph.Invariant
import SymbolAtlas.Proofs.Graph.Joining
import SymbolAtlas.Proofs.Graph.Linking
import SymbolAtlas.Proofs.Graph.Net
import SymbolAtlas.Proofs.Graph.Pool
import SymbolAtlas.Proofs.Graph.Reachable
import SymbolAtlas.Proofs.Graph.Removal
import SymbolAtlas.Proofs.Graph.Renaming
import SymbolAtlas.Proofs.Graph.Resolution
import SymbolAtlas.Proofs.Mask.Alignment
import SymbolAtlas.Proofs.Mask.Braces
import SymbolAtlas.Proofs.Mask.Lexemes
import SymbolAtlas.Proofs.Mask.Matching
import SymbolAtlas.Proofs.Mask.Opaque
import SymbolAtlas.Proofs.Mask.Reading
import SymbolAtlas.Proofs.Mask.Restart
import SymbolAtlas.Proofs.Mask.Transcript
import SymbolAtlas.Proofs.Parse.Containers
import SymbolAtlas.Proofs.Parse.Entry
import SymbolAtlas.Proofs.Parse.Overlap
import SymbolAtlas.Proofs.Parse.Spans
import SymbolAtlas.Proofs.Parse.Starts
import SymbolAtlas.Proofs.Parse.Tally
import SymbolAtlas.Proofs.Record.Combined
import SymbolAtlas.Proofs.Record.Exports
import SymbolAtlas.Proofs.Record.Grouping
import SymbolAtlas.Proofs.Record.Keyed
import SymbolAtlas.Proofs.Record.Merging
import SymbolAtlas.Proofs.Scope.Descent
import SymbolAtlas.Proofs.Scope.Nesting
import SymbolAtlas.Proofs.Scope.Prelude
import SymbolAtlas.Proofs.Scope.Recorded
import SymbolAtlas.Proofs.Scope.Situation
import SymbolAtlas.Proofs.Snapshot.Bytes
import SymbolAtlas.Proofs.Snapshot.Codec
import SymbolAtlas.Proofs.Snapshot.Relinking
import SymbolAtlas.Proofs.Snapshot.Restore
import SymbolAtlas.Proofs.Snapshot.RoundTrip
import SymbolAtlas.Proofs.Snapshot.Truncation
import SymbolAtlas.Proofs.Text.Lines
import SymbolAtlas.Proofs.Text.Stripping
import SymbolAtlas.Proofs.Text.Utf8
import SymbolAtlas.Proofs.Tree.Nodes
import SymbolAtlas.Record.Basic
import SymbolAtlas.Record.Entity
import SymbolAtlas.Record.Json
import SymbolAtlas.Record.Merge
import SymbolAtlas.Scan.Basic
import SymbolAtlas.Scan.Json
import SymbolAtlas.Scope.Basic
import SymbolAtlas.Scope.Json
import SymbolAtlas.Scope.OfMask
import SymbolAtlas.Scope.OfTree
import SymbolAtlas.Settings.Basic
import SymbolAtlas.Settings.Json
import SymbolAtlas.Settings.OfToml
import SymbolAtlas.Snapshot.Basic
import SymbolAtlas.Snapshot.Codec
import SymbolAtlas.Text.Bytes
import SymbolAtlas.Text.CharTable
import SymbolAtlas.Text.Dotted
import SymbolAtlas.Text.Path
import SymbolAtlas.Text.TypeName
import SymbolAtlas.Text.Utf8
import SymbolAtlas.Text.Word
import SymbolAtlas.Toml.Document
import SymbolAtlas.Toml.Token
import SymbolAtlas.Toml.Value
import SymbolAtlas.Tree.Cursor
import SymbolAtlas.Tree.Kind
import SymbolAtlas.Tree.Node
import SymbolAtlas.Tree.Notation
import SymbolAtlas.Tree.Site
import SymbolAtlas.Proofs.Extract.Issues
import SymbolAtlas.Proofs.Graph.Repositories
import SymbolAtlas.Proofs.Boundary.Header
import SymbolAtlas.Proofs.Extract.CallPattern
import SymbolAtlas.Proofs.Extract.Unreported
