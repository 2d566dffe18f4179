import LazyQuery.Schema.Join
import LazyQuery.Table.Basic

/-!
# Nodes

A node of the query graph is one operation on the results of earlier nodes, with the schema of its
own result. An operation holds the numbers of its inputs where it uses them; `Op.sources` and
`Op.evalSources` list them.

* The *sources* are needed wherever the node is produced.
* The *eval sources* are needed in memory only: a statement contains the expression instead.
-/

set_option autoImplicit false

namespace LazyQuery

/-- A function on tables that a caller supplies. -/
abbrev TableFn := Table → Except PlanError Table

/-- A condition on the rows of one table. -/
inductive Criterion
  | compare (op : CompareOp) (left right : NodeId)
  | like (operand : NodeId) (pattern : String)
  | isNull (operand : NodeId)
  | and (left right : NodeId)
  | or (left right : NodeId)
  | not (operand : NodeId)
  deriving DecidableEq

/-- The operands of a condition. -/
def Criterion.operands : Criterion → List NodeId
  | compare _ l r | and l r | or l r => [l, r]
  | like a _ | isNull a | not a => [a]

/-- An arithmetic expression over the rows of one table. -/
inductive Arithmetic
  | binary (op : ArithOp) (left right : NodeId)
  | unary (op : UnaryOp) (operand : NodeId)
  deriving DecidableEq

/-- The operands of an arithmetic expression. -/
def Arithmetic.operands : Arithmetic → List NodeId
  | binary _ l r => [l, r]
  | unary _ a => [a]

/-- An operation, with the nodes it works on. -/
inductive Op
  /-- A base table, whose rows the engine holds. -/
  | source
  | constant (value : Scalar)
  /-- A condition on the rows of `owner`. -/
  | criterion (owner : NodeId) (criterion : Criterion)
  /-- A computed column over the rows of `owner`. -/
  | arithmetic (owner : NodeId) (expression : Arithmetic)
  | projection (table : NodeId) (columns : List String) (distinct : Bool)
  | selection (table criterion : NodeId)
  | join (left right : NodeId) (leftOn rightOn : List String) (how : JoinType) (layout : JoinLayout)
  | union (inputs : List NodeId)
  | orderBy (table : NodeId) (keys : List (String × Bool))
  | limit (table : NodeId) (n : Nat)
  /-- The rows of `table` grouped by `keys`: not a table itself, but what an aggregate works on. -/
  | groupBy (table : NodeId) (keys : List String)
  /-- The grouping `group`, of `table` by `keys`, cut down to some columns. -/
  | groupProjection (group table : NodeId) (keys columns : List String)
  /-- The aggregates of some columns of `input`, per group if there are keys. The `source` is the
  grouping or table that was aggregated. -/
  | aggregator (source : NodeId) (func : AggFunc) (input : NodeId) (keys columns : List String)
  | rename (table : NodeId) (mapping : List (String × String))
  | assign (table : NodeId) (column : String) (value : NodeId)
  | describe (table : NodeId)
  | apply (table : NodeId) (name : String) (func : TableFn)

namespace Op

/-- The name of the kind of operation. -/
def kind : Op → String
  | source => "source"
  | constant _ => "constant"
  | criterion _ _ => "criterion"
  | arithmetic _ _ => "arithmetic"
  | projection _ _ _ => "projection"
  | selection _ _ => "selection"
  | join _ _ _ _ _ _ => "join"
  | union _ => "union"
  | orderBy _ _ => "order_by"
  | limit _ _ => "limit"
  | groupBy _ _ => "group_by"
  | groupProjection _ _ _ _ => "group_by_projection"
  | aggregator _ _ _ _ _ => "aggregator"
  | rename _ _ => "rename"
  | assign _ _ _ => "assign"
  | describe _ | apply _ _ _ => "fallback"

/-- The inputs that are needed wherever the node is produced, in declaration order. -/
def sources : Op → List NodeId
  | source | constant _ => []
  | criterion owner _ | arithmetic owner _ => [owner]
  | projection t _ _ | selection t _ | orderBy t _ | limit t _ | groupBy t _ | rename t _
  | assign t _ _ | describe t | apply t _ _ => [t]
  | join l r _ _ _ _ => [l, r]
  | union inputs => inputs
  | groupProjection group _ _ _ => [group]
  | aggregator s _ _ _ _ => [s]

/-- The inputs that are needed in memory only. -/
def evalSources : Op → List NodeId
  | criterion _ c => c.operands
  | arithmetic _ a => a.operands
  | selection _ c => [c]
  | assign _ _ v => [v]
  | _ => []

/-- Is the operation a grouping, which has no result of its own? -/
def isContainer : Op → Bool
  | groupBy _ _ | groupProjection _ _ _ _ => true
  | _ => false

/-- Can the operation be evaluated in memory only? -/
def isFallback : Op → Bool
  | describe _ | apply _ _ _ => true
  | _ => false

/-- Is the operation a base table? -/
def isSource : Op → Bool
  | source => true
  | _ => false

/-- Can the operation be written as a statement? -/
def hasStatement : Op → Bool
  | source | describe _ | apply _ _ _ | groupBy _ _ | groupProjection _ _ _ _ => false
  | _ => true

/-- Is the operation an expression by itself, rather than a column of a table? -/
def isExpression : Op → Bool
  | constant _ | criterion _ _ | arithmetic _ _ => true
  | _ => false

end Op

/-- A node of the query graph. -/
structure Node where
  id : NodeId
  /-- The name of the node's table in the relational store. -/
  name : String
  op : Op
  schema : Schema

namespace Node

/-- The columns of the node's result. -/
def columns (n : Node) : List String := n.schema.names

/-- The inputs that a backend needs. -/
def deps (n : Node) : Backend → List NodeId
  | .inMemory => n.op.sources ++ n.op.evalSources
  | .relational => n.op.sources

/-- The name of the first column, which is the only one of a constant or expression. -/
def columnName (n : Node) : String := n.columns.headD ""

end Node
end LazyQuery
