import LazyQuery.Operator
import LazyQuery.Scalar.Text
import LazyQuery.Text.Quoted

/-!
# Errors

Every way in which the library refuses an argument or fails at a task, as causes, with the one text
of each. The causes nest as the parts of the library do: a `PlanError` can arise anywhere, a
`FrameError` in the evaluation of tables in memory, a `StoreError` in the relational store, and an
`EngineError` in the engine that drives both.
-/

set_option autoImplicit false

namespace LazyQuery

/-- The number of a node in its graph. -/
abbrev NodeId := Nat

/-- The text of a node's number in a message. -/
def nodeIdText (id : NodeId) : String := "NodeId(" ++ toString id ++ ")"

/-! ## Plans -/

/-- Why a table, a schema or a node cannot be built from its arguments. -/
inductive ConstructionError
  | rowWidth (row actual expected : Nat)
  | columnLength (name : String) (actual expected : Nat)
  | duplicateColumn (name : String)
  | missingColumns (missing available : List String)
  | unpairedJoinKeys (left right : Nat)
  | duplicateJoinColumn (name : String)
  | constantAsTable (node : String)
  | groupingAsTable (node : String)
  | notAnExpression (node kind : String)
  | operandWithoutColumns (id : NodeId)
  | mixedOwners (first second : String)
  | noColumnOperand
  | incomparable (left right : DataType)
  | connectiveArity (op : Connective)
  | connectiveOperand (op : Connective) (kind : String)
  | nonNumericOperand (type : DataType)
  | emptyProjection
  | repeatedProjection (columns : List String)
  | notACriterion (kind : String)
  | foreignCriterion (criterion table : String)
  | emptyUnion
  | unionColumns (first other : List String)
  | noSortKey
  | noGroupKey
  | notAGrouping (node : String)
  | aggregateOfConstant
  | nothingToAggregate (func : AggFunc)
  | missingGroupKey (name : String)
  | missingColumn (name : String)
  | undefinedAggregate (func : AggFunc) (column : String) (type : DataType)
  | duplicateRenamed (name : String)
  | foreignAssignment (owner target : String)
  | noOutputColumns
  | repeatedOutputColumn (name : String)
  | foreignSession
  deriving DecidableEq

/-- The text of a construction error. -/
def ConstructionError.message : ConstructionError → String
  | rowWidth row actual expected =>
    s!"row {row} has {actual} values, expected {expected}"
  | columnLength name actual expected =>
    s!"column '{name}' has {actual} rows, expected {expected}"
  | duplicateColumn name => s!"duplicate column name '{name}'"
  | missingColumns missing available =>
    "columns " ++ Text.quotedList missing ++ " not found in " ++ Text.quotedList available
  | unpairedJoinKeys left right =>
    s!"join keys must be non-empty and paired, got {left} left and {right} right"
  | duplicateJoinColumn name => s!"join produces duplicate output column '{name}'"
  | constantAsTable node => s!"{node} is a constant, not a table"
  | groupingAsTable node => s!"{node} is a grouping, aggregate it first"
  | notAnExpression node kind => s!"{node} ({kind}) is not a column, constant or expression"
  | operandWithoutColumns id => nodeIdText id ++ " has no columns"
  | mixedOwners first second => s!"expression mixes columns of {first} and {second}"
  | noColumnOperand => "expression needs at least one column operand"
  | incomparable left right => "cannot compare " ++ left.name ++ " with " ++ right.name
  | connectiveArity op => op.name ++ " takes " ++ toString op.arity ++ " operand(s)"
  | connectiveOperand op kind => op.name ++ " requires criterion operands, got " ++ kind
  | nonNumericOperand type => "arithmetic on non-numeric operand of type " ++ type.name
  | emptyProjection => "projection needs at least one column"
  | repeatedProjection columns => "projection repeats a column: " ++ Text.quotedList columns
  | notACriterion kind => s!"selection criterion must be a criterion or single column, got {kind}"
  | foreignCriterion criterion table => s!"criterion {criterion} does not reference {table}"
  | emptyUnion => "union needs at least one source"
  | unionColumns first other =>
    "union sources differ in columns: " ++ Text.quotedList first ++ " vs " ++ Text.quotedList other
  | noSortKey => "sort needs at least one key"
  | noGroupKey => "group by needs at least one key"
  | notAGrouping node => s!"{node} is not a group by"
  | aggregateOfConstant => "cannot aggregate a constant"
  | nothingToAggregate func => func.name ++ " needs at least one non-key column"
  | missingGroupKey name => s!"group key '{name}' not found"
  | missingColumn name => s!"column '{name}' not found"
  | undefinedAggregate func column type =>
    func.name ++ s!" is not defined for column '{column}' of type " ++ type.name
  | duplicateRenamed name => s!"rename produces duplicate column '{name}'"
  | foreignAssignment owner target => s!"assigned value references {owner}, not {target}"
  | noOutputColumns => "apply must declare its output columns"
  | repeatedOutputColumn name => s!"apply declares column '{name}' twice"
  | foreignSession => "operands belong to different sessions"

/-- Why a text is no number of bytes. -/
inductive NumberError
  | empty
  | invalidDigit
  | tooLarge
  deriving DecidableEq

/-- The text of a number error. -/
def NumberError.message : NumberError → String
  | empty => "cannot parse integer from empty string"
  | invalidDigit => "invalid digit found in string"
  | tooLarge => "number too large to fit in target type"

/-- Why a configuration is refused. -/
inductive ConfigError
  | unknownStrategy (text : String)
  | noStrategy
  | number (setting : String) (cause : NumberError)
  | notABool (setting : String)
  | document
  deriving DecidableEq

/-- The text of a configuration error. -/
def ConfigError.message : ConfigError → String
  | unknownStrategy text =>
    s!"unsupported offload strategy '{text}' (expected ALWAYS, NEVER or BEST)"
  | noStrategy => "no offload strategy set (expected ALWAYS, NEVER or BEST)"
  | number setting cause => setting ++ ": " ++ cause.message
  | notABool setting => setting ++ ": provided string was not `true` or `false`"
  | document => "the document is not a configuration"

/-- How a table fails to have the columns it is asked for. -/
inductive SchemaError
  | missingKey (name : String)
  | undeclaredOutput (func : String) (actual declared : List String)
  | custom (text : String)
  deriving DecidableEq

/-- The text of a schema error. -/
def SchemaError.message : SchemaError → String
  | missingKey name => s!"key column '{name}' not found"
  | undeclaredOutput func actual declared =>
    func ++ " returned columns " ++ Text.quotedList actual ++ ", declared "
      ++ Text.quotedList declared
  | custom text => text

/-- Conditions that a correct caller never meets. -/
inductive InvariantError
  | unknownNode (id : NodeId)
  | cycle (node : String)
  | notLoaded (node kind : String)
  | noStatement (node kind : String)
  | notInExpression (node kind : String)
  | neverEvaluated (node kind : String)
  | notCached (id : NodeId)
  | noState (id : NodeId)
  | neededInMemory (node : String)
  | groupingHasNoResult (node : String)
  | reentered (node : String)
  deriving DecidableEq

/-- The text of an invariant error. -/
def InvariantError.message : InvariantError → String
  | unknownNode id => nodeIdText id ++ " is not part of this graph"
  | cycle node => s!"cycle detected at {node}"
  | notLoaded node kind => s!"{node} ({kind}) must be loaded before rendering"
  | noStatement node kind => s!"{node} ({kind}) has no SQL form"
  | notInExpression node kind => s!"{node} ({kind}) cannot be used inside an expression"
  | neverEvaluated node kind => s!"{node} ({kind}) is never evaluated"
  | notCached id => nodeIdText id ++ " not cached"
  | noState id => nodeIdText id ++ " has no execution state"
  | neededInMemory node => s!"{node} is needed in memory but is not cached"
  | groupingHasNoResult node => s!"{node} is a grouping and has no result of its own"
  | reentered node => s!"{node} was re-entered while computing"

/-- An error about a plan: its nodes, their schemas and the choice of a backend. -/
inductive PlanError
  | construction (cause : ConstructionError)
  | config (cause : ConfigError)
  | schema (cause : SchemaError)
  | backendUnreachable (backend : Backend) (failures : Nat)
  | invariant (cause : InvariantError)
  deriving DecidableEq

/-- The text of a plan error. -/
def PlanError.message : PlanError → String
  | construction cause => "Invalid construction: " ++ cause.message
  | config cause => "Invalid configuration: " ++ cause.message
  | schema cause => "Schema error: " ++ cause.message
  | backendUnreachable backend failures =>
    "Backend " ++ backend.name ++ " is unreachable: " ++ toString failures
      ++ " ancestor(s) cannot be computed there"
  | invariant cause => "Internal invariant failed: " ++ cause.message

/-! ## Tables in memory -/

/-- How a table lacks the columns an operation in memory needs. -/
inductive FrameSchemaError
  | missingColumn (name : String)
  | missingGroupKey (name : String)
  | concatWidth (actual expected : Nat)
  | missingLeftColumn (name : String)
  | missingRightColumn (name : String)
  | unpairedJoinKeys (left right : Nat)
  | unnamedScalar
  | nodeWithoutColumns (node : String)
  | nodeWithoutOutput (node : String)
  deriving DecidableEq

/-- The text of a table's schema error. -/
def FrameSchemaError.message : FrameSchemaError → String
  | missingColumn name => s!"column '{name}' not found"
  | missingGroupKey name => s!"group key '{name}' not found"
  | concatWidth actual expected => s!"cannot concatenate {actual} columns onto {expected}"
  | missingLeftColumn name => s!"left column '{name}' not found"
  | missingRightColumn name => s!"right column '{name}' not found"
  | unpairedJoinKeys left right =>
    s!"join keys must be non-empty and paired, got {left} left and {right} right"
  | unnamedScalar => "scalar value without a column name"
  | nodeWithoutColumns node => s!"{node} has no columns"
  | nodeWithoutOutput node => s!"{node} has no output column"

/-- How a value is of the wrong type for an operation in memory. -/
inductive FrameTypeError
  | undefinedOperator (op : String) (type : DataType)
  | nonNumericAggregate (value : Scalar)
  deriving DecidableEq

/-- The text of a type error. -/
def FrameTypeError.message : FrameTypeError → String
  | undefinedOperator op type => s!"operator '{op}' is not defined for " ++ type.name
  | nonNumericAggregate value => "cannot aggregate non-numeric value " ++ value.described

/-- An error in the evaluation of tables in memory. -/
inductive FrameError
  | schema (cause : FrameSchemaError)
  | type (cause : FrameTypeError)
  | overflow (operation : String)
  | length (expected actual : Nat)
  | plan (cause : PlanError)
  deriving DecidableEq

/-- The text of an error in memory. -/
def FrameError.message : FrameError → String
  | schema cause => "schema error: " ++ cause.message
  | type cause => "type error: " ++ cause.message
  | overflow operation => s!"integer overflow in {operation}"
  | length expected actual => s!"length mismatch: expected {expected} values, got {actual}"
  | plan cause => cause.message

/-! ## The relational store -/

/-- What is wrong with the shape of a document of records. -/
inductive FormatError
  | notAnArray
  | notAnObject
  deriving DecidableEq

/-- The text of a format error. -/
def FormatError.message : FormatError → String
  | notAnArray => "expected a JSON array of records"
  | notAnObject => "every record must be a JSON object"

/-- An error of the relational store or of the readers of files. -/
inductive StoreError
  /-- A statement or a database file is refused. -/
  | statement
  /-- A table is to be created from one that does not exist. -/
  | unknownTable
  /-- A file cannot be read. -/
  | file
  /-- A document is not comma-separated text. -/
  | csv
  /-- A document is not JSON. -/
  | json
  | format (cause : FormatError)
  | closed
  | plan (cause : PlanError)
  deriving DecidableEq

/-- The text of a store error. -/
def StoreError.message : StoreError → String
  | statement => "sqlite: the statement failed"
  | unknownTable => "sqlite: no such table"
  | file => "io: the file cannot be read"
  | csv => "csv: the document is malformed"
  | json => "json: the document is malformed"
  | format cause => "unsupported input: " ++ cause.message
  | closed => "the relational store is closed"
  | plan cause => cause.message

/-! ## The engine -/

/-- A reservation that exceeds the memory budget. -/
structure BudgetExceeded where
  tag : String
  requested : UInt64
  capacity : UInt64
  used : UInt64
  deriving DecidableEq

/-- The text of an exceeded budget. -/
def BudgetExceeded.message (e : BudgetExceeded) : String :=
  "memory budget exceeded for tag '" ++ e.tag ++ "': requested " ++ toString e.requested.toNat
    ++ " bytes, capacity " ++ toString e.capacity.toNat ++ ", used " ++ toString e.used.toNat

/-- An error of the engine. -/
inductive EngineError
  | plan (cause : PlanError)
  | frame (cause : FrameError)
  | store (cause : StoreError)
  | budget (cause : BudgetExceeded)
  | resultTooLarge (node : String) (estimated available : UInt64)
  deriving DecidableEq

/-- The text of an engine error, which names the part that failed. -/
def EngineError.message : EngineError → String
  | plan cause => cause.message
  | frame cause => "in-memory engine: " ++ cause.message
  | store cause => "relational engine: " ++ cause.message
  | budget cause => cause.message
  | resultTooLarge node estimated available =>
    s!"result of {node} does not fit in memory: ~" ++ toString estimated.toNat ++ " bytes needed, "
      ++ toString available.toNat ++ " available"

/-! ## Passing errors on

An error is passed on by the shortest way: a plan error becomes an engine error as it is, and not by
way of an error of the store, whose instance has a low priority. -/

instance : MonadLift (Except InvariantError) (Except PlanError) where
  monadLift x := x.mapError .invariant

instance : MonadLift (Except ConstructionError) (Except PlanError) where
  monadLift x := x.mapError .construction

instance : MonadLift (Except PlanError) (Except FrameError) where
  monadLift x := x.mapError .plan

instance : MonadLift (Except PlanError) (Except StoreError) where
  monadLift x := x.mapError .plan

instance : MonadLift (Except BudgetExceeded) (Except EngineError) where
  monadLift x := x.mapError .budget

instance (priority := low) : MonadLift (Except StoreError) (Except EngineError) where
  monadLift x := x.mapError .store

instance (priority := low) : MonadLift (Except FrameError) (Except EngineError) where
  monadLift x := x.mapError .frame

instance : MonadLift (Except PlanError) (Except EngineError) where
  monadLift x := x.mapError .plan

end LazyQuery
