import SqlCompiler.Calendar.Basic
import SqlCompiler.Calendar.Reader
import SqlCompiler.Capability
import SqlCompiler.ColumnType
import SqlCompiler.CommandLine.Arguments
import SqlCompiler.CommandLine.Run
import SqlCompiler.CommandLine.Usage
import SqlCompiler.Config.Basic
import SqlCompiler.Cursor
import SqlCompiler.Dialect.Basic
import SqlCompiler.Dialect.Builtin
import SqlCompiler.Dialect.Registry
import SqlCompiler.Dialect.Style
import SqlCompiler.Error
import SqlCompiler.Function
import SqlCompiler.Json.Basic
import SqlCompiler.Json.Fields
import SqlCompiler.Json.Number
import SqlCompiler.Json.Printer
import SqlCompiler.Json.Query
import SqlCompiler.Json.Reader
import SqlCompiler.Json.Scalar
import SqlCompiler.Json.Schema
import SqlCompiler.Layout.Basic
import SqlCompiler.Layout.Datum
import SqlCompiler.Main
import SqlCompiler.Number.Binary
import SqlCompiler.Number.Decimal
import SqlCompiler.Number.Shortest
import SqlCompiler.Query.Basic
import SqlCompiler.Query.Children
import SqlCompiler.Query.Equality
import SqlCompiler.Query.Outline
import SqlCompiler.Query.Rename
import SqlCompiler.Query.RowNumbering
import SqlCompiler.Query.Scope
import SqlCompiler.Query.Symbols
import SqlCompiler.Scalar.Coercion
import SqlCompiler.Scalar.Inline
import SqlCompiler.Scalar.Kind
import SqlCompiler.Scalar.Value
import SqlCompiler.Schema.Basic
import SqlCompiler.Schema.Change
import SqlCompiler.SortOrder
import SqlCompiler.Statement.Basic
import SqlCompiler.Statement.Emit
import SqlCompiler.Statement.Insert
import SqlCompiler.Statement.Piece
import SqlCompiler.Statement.Rendering
import SqlCompiler.Statement.Script
import SqlCompiler.Statement.Update
import SqlCompiler.Symbol
import SqlCompiler.Text.Blank
import SqlCompiler.Text.Escape
import SqlCompiler.Text.Hex
import SqlCompiler.Text.Quote
import SqlCompiler.Text.Unprintable
import SqlCompiler.Toml.Basic
import SqlCompiler.Toml.Reader
import SqlCompiler.Toml.Scalar
import SqlCompiler.Toml.Text
import SqlCompiler.Uuid
import SqlCompiler.Proofs.Emission
import SqlCompiler.Proofs.Rendering
import SqlCompiler.Proofs.Collecting
import SqlCompiler.Proofs.Passing
import SqlCompiler.Proofs.Gathering
import SqlCompiler.Proofs.Checks
import SqlCompiler.Proofs.Scoping
import SqlCompiler.Proofs.Capabilities
import SqlCompiler.Proofs.Lexing
import SqlCompiler.Proofs.Texts
import SqlCompiler.Proofs.Bindings
import SqlCompiler.Proofs.Writing
import SqlCompiler.Proofs.Placeholders
import SqlCompiler.Proofs.Lexical
import SqlCompiler.Proofs.Resolution
import SqlCompiler.Proofs.Identifiers
import SqlCompiler.Proofs.RoundTrip
import SqlCompiler.Proofs.Levels
import SqlCompiler.Proofs.Discipline
import SqlCompiler.Proofs.Sections
import SqlCompiler.Proofs.Exposure
import SqlCompiler.Proofs.ColumnCounts
import SqlCompiler.Proofs.Conjunctions
import SqlCompiler.Proofs.Skipping
import SqlCompiler.Proofs.Cuts
import SqlCompiler.Proofs.Paging
import SqlCompiler.Proofs.Relabeling
import SqlCompiler.Proofs.Equivariance
import SqlCompiler.Proofs.Allocation
import SqlCompiler.Proofs.ColumnNames
import SqlCompiler.Proofs.Rescaling
import SqlCompiler.Proofs.SameStatements
import SqlCompiler.Proofs.WrittenScalars
import SqlCompiler.Proofs.Shedding
import SqlCompiler.Proofs.Clipping
import SqlCompiler.Proofs.StoredForms
import SqlCompiler.Proofs.Sights
import SqlCompiler.Proofs.Sites
import SqlCompiler.Proofs.Apart
import SqlCompiler.Proofs.Refreshing
import SqlCompiler.Proofs.Strides
import SqlCompiler.Proofs.RowUpdates
import SqlCompiler.Proofs.Quoting
import SqlCompiler.Proofs.InlineTimes
import SqlCompiler.Proofs.NullPlacement
import SqlCompiler.Proofs.Arguments
import SqlCompiler.Proofs.TableCapabilities
import SqlCompiler.Proofs.Catalog
import SqlCompiler.Proofs.Targets
import SqlCompiler.Proofs.Numbering
import SqlCompiler.Proofs.Replacement
import SqlCompiler.Proofs.Templates
import SqlCompiler.Proofs.EmptyClauses
import SqlCompiler.Proofs.Mapping
import SqlCompiler.Proofs.Reversal
import SqlCompiler.Proofs.Distinct
import SqlCompiler.Proofs.Stages
import SqlCompiler.Proofs.Calls
import SqlCompiler.Proofs.Tracing
