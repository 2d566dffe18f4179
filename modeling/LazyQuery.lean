import LazyQuery.Config
import LazyQuery.DataType
import LazyQuery.Decimal.Binary
import LazyQuery.Decimal.Double
import LazyQuery.Decimal.Extended
import LazyQuery.Decimal.Layout
import LazyQuery.Decimal.Read
import LazyQuery.Decimal.Shortest
import LazyQuery.Decimal.Word
import LazyQuery.Document.Csv
import LazyQuery.Document.Json
import LazyQuery.Document.Records
import LazyQuery.Elementwise
import LazyQuery.Engine.Compute
import LazyQuery.Engine.Evaluate
import LazyQuery.Engine.State
import LazyQuery.Error
import LazyQuery.Graph.Build
import LazyQuery.Graph.Node
import LazyQuery.Graph.Resolve
import LazyQuery.Memory.Budget
import LazyQuery.Memory.Footprint
import LazyQuery.Numbers
import LazyQuery.Operator
import LazyQuery.Plan.Cost
import LazyQuery.Plan.Estimate
import LazyQuery.Proofs.Document.Readers
import LazyQuery.Proofs.Document.Readings
import LazyQuery.Proofs.Engine.Accounting
import LazyQuery.Proofs.Engine.Agreement
import LazyQuery.Proofs.Engine.Alignment
import LazyQuery.Proofs.Engine.BaseTables
import LazyQuery.Proofs.Engine.Declared
import LazyQuery.Proofs.Engine.Denotation
import LazyQuery.Proofs.Engine.Evaluate
import LazyQuery.Proofs.Engine.Evaluations
import LazyQuery.Proofs.Engine.Fitting
import LazyQuery.Proofs.Engine.Following
import LazyQuery.Proofs.Engine.InMemory
import LazyQuery.Proofs.Engine.Markers
import LazyQuery.Proofs.Engine.Materialize
import LazyQuery.Proofs.Engine.Meaning
import LazyQuery.Proofs.Engine.Measuring
import LazyQuery.Proofs.Engine.Moves
import LazyQuery.Proofs.Engine.ReadingBack
import LazyQuery.Proofs.Engine.Rebuilding
import LazyQuery.Proofs.Engine.Refusal
import LazyQuery.Proofs.Engine.Results
import LazyQuery.Proofs.Engine.Run
import LazyQuery.Proofs.Engine.Scripts
import LazyQuery.Proofs.Engine.States
import LazyQuery.Proofs.Engine.Steps
import LazyQuery.Proofs.Graph.Columns
import LazyQuery.Proofs.Graph.Consistency
import LazyQuery.Proofs.Graph.Construction
import LazyQuery.Proofs.Graph.DistinctColumns
import LazyQuery.Proofs.Graph.Order
import LazyQuery.Proofs.Graph.Producible
import LazyQuery.Proofs.Graph.TableNames
import LazyQuery.Proofs.Graph.Topological
import LazyQuery.Proofs.Graph.Unions
import LazyQuery.Proofs.Graph.WellFormed
import LazyQuery.Proofs.Memo
import LazyQuery.Proofs.Memory.Budget
import LazyQuery.Proofs.Memory.Estimates
import LazyQuery.Proofs.Memory.Holdings
import LazyQuery.Proofs.Outcome
import LazyQuery.Proofs.Plan.RowEstimates
import LazyQuery.Proofs.Scalar.Comparison
import LazyQuery.Proofs.Scalar.Declared
import LazyQuery.Proofs.Scalar.Equality
import LazyQuery.Proofs.Scalar.ExactOrder
import LazyQuery.Proofs.Scalar.FloatOrder
import LazyQuery.Proofs.Scalar.Floats
import LazyQuery.Proofs.Scalar.Framing
import LazyQuery.Proofs.Scalar.Order
import LazyQuery.Proofs.Scalar.Plain
import LazyQuery.Proofs.Scalar.Word
import LazyQuery.Proofs.Session
import LazyQuery.Proofs.Sharing
import LazyQuery.Proofs.Sql.Affinity
import LazyQuery.Proofs.Sql.Aggregate
import LazyQuery.Proofs.Sql.Answer
import LazyQuery.Proofs.Sql.Checked
import LazyQuery.Proofs.Sql.ColumnTruth
import LazyQuery.Proofs.Sql.Compile
import LazyQuery.Proofs.Sql.Compound
import LazyQuery.Proofs.Sql.ExclusiveOr
import LazyQuery.Proofs.Sql.Expression
import LazyQuery.Proofs.Sql.Headings
import LazyQuery.Proofs.Sql.Join
import LazyQuery.Proofs.Sql.JoinKeys
import LazyQuery.Proofs.Sql.Names
import LazyQuery.Proofs.Sql.Operands
import LazyQuery.Proofs.Sql.Operations
import LazyQuery.Proofs.Sql.Portable
import LazyQuery.Proofs.Sql.Product
import LazyQuery.Proofs.Sql.Queries
import LazyQuery.Proofs.Sql.Quoting
import LazyQuery.Proofs.Sql.References
import LazyQuery.Proofs.Sql.Relation
import LazyQuery.Proofs.Sql.Select
import LazyQuery.Proofs.Sql.SelfContained
import LazyQuery.Proofs.Sql.Statements
import LazyQuery.Proofs.Sql.StoredEquality
import LazyQuery.Proofs.Sql.StoredOrder
import LazyQuery.Proofs.Sql.Truth
import LazyQuery.Proofs.Store.Constants
import LazyQuery.Proofs.Store.Files
import LazyQuery.Proofs.Store.Holding
import LazyQuery.Proofs.Store.LifeCycle
import LazyQuery.Proofs.Store.Limits
import LazyQuery.Proofs.Store.Loading
import LazyQuery.Proofs.Store.Locality
import LazyQuery.Proofs.Store.Operations
import LazyQuery.Proofs.Store.Reading
import LazyQuery.Proofs.Store.Regular
import LazyQuery.Proofs.Store.RowOrder
import LazyQuery.Proofs.Store.Statements
import LazyQuery.Proofs.Store.Tables
import LazyQuery.Proofs.Summary.Quantiles
import LazyQuery.Proofs.Summary.Totals
import LazyQuery.Proofs.Table.Bounds
import LazyQuery.Proofs.Table.Cells
import LazyQuery.Proofs.Table.CheckedRows
import LazyQuery.Proofs.Table.CheckedSummaries
import LazyQuery.Proofs.Table.Columns
import LazyQuery.Proofs.Table.Conforms
import LazyQuery.Proofs.Table.Declared
import LazyQuery.Proofs.Table.DeclaredAggregates
import LazyQuery.Proofs.Table.Digests
import LazyQuery.Proofs.Table.Errors
import LazyQuery.Proofs.Table.Filled
import LazyQuery.Proofs.Table.Groups
import LazyQuery.Proofs.Table.Index
import LazyQuery.Proofs.Table.Inferred
import LazyQuery.Proofs.Table.JoinColumns
import LazyQuery.Proofs.Table.Layout
import LazyQuery.Proofs.Table.Level
import LazyQuery.Proofs.Table.NestedLoop
import LazyQuery.Proofs.Table.Partition
import LazyQuery.Proofs.Table.Places
import LazyQuery.Proofs.Table.Repetitions
import LazyQuery.Proofs.Table.Rows
import LazyQuery.Proofs.Table.SameRows
import LazyQuery.Proofs.Table.Slots
import LazyQuery.Proofs.Table.Sorters
import LazyQuery.Proofs.Table.Sorting
import LazyQuery.Proofs.Text.Like
import LazyQuery.Proofs.Text.Numerals
import LazyQuery.Result
import LazyQuery.Scalar.Basic
import LazyQuery.Scalar.Key
import LazyQuery.Scalar.Order
import LazyQuery.Scalar.Text
import LazyQuery.Schema.Basic
import LazyQuery.Schema.Join
import LazyQuery.Session
import LazyQuery.Sql.Answer
import LazyQuery.Sql.Block
import LazyQuery.Sql.Compile
import LazyQuery.Sql.Datum
import LazyQuery.Sql.Definition
import LazyQuery.Sql.Eval
import LazyQuery.Sql.Expected
import LazyQuery.Sql.Keyword
import LazyQuery.Sql.Layout
import LazyQuery.Sql.Limits
import LazyQuery.Sql.Query
import LazyQuery.Sql.Real
import LazyQuery.Sql.Sum
import LazyQuery.Sql.Token
import LazyQuery.Store.Basic
import LazyQuery.Store.Database
import LazyQuery.Store.Disk
import LazyQuery.Store.Listing
import LazyQuery.Store.Tables
import LazyQuery.Summary.Aggregate
import LazyQuery.Summary.Describe
import LazyQuery.Table.Basic
import LazyQuery.Table.Join
import LazyQuery.Table.Keys
import LazyQuery.Table.Reshape
import LazyQuery.Table.Sort
import LazyQuery.Text.Hidden
import LazyQuery.Text.Like
import LazyQuery.Text.Quoted
