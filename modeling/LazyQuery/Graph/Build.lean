import LazyQuery.Graph.Node
import LazyQuery.Summary.Describe

/-!
# Building graphs

A `Graph` is a list of nodes that grows at its end. Each constructor checks its arguments against
the schemas of its inputs and refuses them before anything is added, so that a node in the graph has
a known schema and only earlier nodes as inputs.

Constructors take a graph and yield the new node's number with the larger graph.
-/

set_option autoImplicit false

namespace LazyQuery

/-- The nodes built so far, and for each the nodes built directly on it. -/
structure Graph where
  /-- What tells the tables of this graph from those of others in one database. -/
  tag : String
  nodes : Array Node
  dependentLists : Array (List NodeId)

namespace Graph

/-- The name of the column of a constant. -/
def constantColumn : String := "constant"

/-- A graph without nodes. -/
def empty (tag : String) : Graph := ⟨tag, #[], #[]⟩

/-- The number of nodes. -/
def size (g : Graph) : Nat := g.nodes.size

/-- The node of a number. -/
def node? (g : Graph) (id : NodeId) : Option Node := g.nodes[id]?

/-- The node of a number, which must be in the graph. -/
def node (g : Graph) (id : NodeId) : Except PlanError Node :=
  match g.node? id with
  | some n => pure n
  | none => throw (.invariant (.unknownNode id))

/-- The nodes built directly on a node, in increasing order. -/
def dependents (g : Graph) (id : NodeId) : List NodeId :=
  (g.dependentLists[id]?).getD []

/-- The name of the table of node number `id`. -/
def tableName (g : Graph) (id : NodeId) : String :=
  "t" ++ g.tag ++ "_" ++ toString id

/-- Add a node. -/
def push (g : Graph) (op : Op) (schema : Schema) : NodeId × Graph :=
  let id := g.size
  let register (lists : Array (List NodeId)) (dep : NodeId) := lists.modify dep (· ++ [id])
  let deps := (op.sources ++ op.evalSources).eraseDups
  (id,
    { g with
      nodes := g.nodes.push ⟨id, g.tableName id, op, schema⟩
      dependentLists := (deps.foldl register g.dependentLists).push [] })

/-- Refuse a construction. -/
def refuse {α : Type} (e : ConstructionError) : Except PlanError α := throw (.construction e)

/-- What a constructor yields: a node's number and the larger graph. -/
abbrev Built := Except PlanError (NodeId × Graph)

/-- A node whose result is a table. -/
def table (g : Graph) (id : NodeId) : Except PlanError Node := do
  let n ← g.node id
  match n.op with
  | .constant _ => refuse (.constantAsTable n.name)
  | op => if op.isContainer then refuse (.groupingAsTable n.name) else pure n

/-! ## Base values -/

/-- A base table of the given schema. -/
def addSource (g : Graph) (schema : Schema) : Built :=
  match firstRepeated [] schema.names with
  | some name => refuse (.duplicateColumn name)
  | none => pure (g.push .source schema)

/-- A constant. -/
def addConstant (g : Graph) (value : Scalar) : NodeId × Graph :=
  g.push (.constant value) ⟨[⟨constantColumn, value.dataType, value.isNull⟩]⟩

/-! ## Expressions -/

/-- The table an operand of an expression belongs to; a constant belongs to none. -/
def expressionBase (g : Graph) (id : NodeId) : Except PlanError (Option NodeId) := do
  let n ← g.node id
  match n.op with
  | .constant _ => pure none
  | .projection t [_] _ => pure (some t)
  | .criterion owner _ | .arithmetic owner _ => pure (some owner)
  | op => refuse (.notAnExpression n.name op.kind)

/-- The field of an operand of an expression. -/
def operandField (g : Graph) (id : NodeId) : Except PlanError Field := do
  let n ← g.node id
  match n.schema.fields with
  | f :: _ => pure f
  | [] => refuse (.operandWithoutColumns id)

/-- What is known of the owner of some operands: its number and the name of the first operand that
is not a constant. -/
abbrev Owner := Option (NodeId × String)

/-- Take in one more operand, which must belong to the owner found so far. -/
def joinOwner (g : Graph) (owner : Owner) (id : NodeId) : Except PlanError Owner := do
  match ← g.expressionBase id with
  | none => pure owner
  | some base =>
    match owner with
    | some (existing, name) =>
      if existing = base then pure (some (existing, name))
      else refuse (.mixedOwners (← g.node existing).name (← g.node base).name)
    | none => pure (some (base, (← g.operandField id).name))

/-- The table that the operands belong to, and the name the expression gets. -/
def expressionOwner (g : Graph) (operands : List NodeId) : Except PlanError (NodeId × String) := do
  match ← operands.foldlM g.joinOwner none with
  | some owner => pure owner
  | none => refuse .noColumnOperand

/-- A condition on the rows of the table its operands belong to. -/
def addCriterion (g : Graph) (c : Criterion) : Built := do
  let (owner, name) ← g.expressionOwner c.operands
  pure (g.push (.criterion owner c) ⟨[⟨name, .boolean, true⟩]⟩)

/-- A comparison. Numbers are not compared with texts or blobs. -/
def addCompare (g : Graph) (op : CompareOp) (left right : NodeId) : Built := do
  let l := (← g.operandField left).type
  let r := (← g.operandField right).type
  if l.isNumeric != r.isNumeric && l != .null && r != .null then refuse (.incomparable l r)
  else g.addCriterion (.compare op left right)

/-- The match of a column against a pattern. -/
def addLike (g : Graph) (operand : NodeId) (pattern : String) : Built :=
  g.addCriterion (.like operand pattern)

/-- The test of a column for null. -/
def addIsNull (g : Graph) (operand : NodeId) : Built :=
  g.addCriterion (.isNull operand)

/-- An operand of a connective must be a condition. -/
def checkCriterion (g : Graph) (op : Connective) (id : NodeId) : Except PlanError Unit := do
  let n ← g.node id
  match n.op with
  | .criterion _ _ => pure ()
  | other => refuse (.connectiveOperand op other.kind)

/-- A connective of conditions. -/
def addLogical (g : Graph) (op : Connective) (left : NodeId) (right : Option NodeId) : Built := do
  let criterion ←
    match op, right with
    | .not, none => pure (Criterion.not left)
    | .and, some r => pure (Criterion.and left r)
    | .or, some r => pure (Criterion.or left r)
    | _, _ => refuse (.connectiveArity op)
  criterion.operands.forM (g.checkCriterion op)
  g.addCriterion criterion

/-- The type of an operand of arithmetic, which must be a number or unknown. -/
def numericOperand (g : Graph) (id : NodeId) : Except PlanError DataType := do
  let t := (← g.operandField id).type
  if t.isNumeric || t == .null then pure t else refuse (.nonNumericOperand t)

/-- A binary arithmetic expression. -/
def addArith (g : Graph) (op : ArithOp) (left right : NodeId) : Built := do
  let (owner, name) ← g.expressionOwner [left, right]
  let l ← g.numericOperand left
  let r ← g.numericOperand right
  pure (g.push (.arithmetic owner (.binary op left right)) ⟨[⟨name, op.resultType l r, true⟩]⟩)

/-- A unary arithmetic expression. -/
def addUnary (g : Graph) (op : UnaryOp) (operand : NodeId) : Built := do
  let (owner, name) ← g.expressionOwner [operand]
  let t ← g.numericOperand operand
  pure (g.push (.arithmetic owner (.unary op operand)) ⟨[⟨name, op.resultType t, true⟩]⟩)

/-! ## Tables -/

/-- Some columns of a table, possibly without repeated rows. -/
def addProjection (g : Graph) (source : NodeId) (columns : List String) (distinct : Bool) :
    Built := do
  if columns.isEmpty then refuse .emptyProjection
  let schema ← (← g.table source).schema.project columns
  if ¬columns.Nodup then refuse (.repeatedProjection columns)
  pure (g.push (.projection source columns distinct) schema)

/-- Is the operation one that can select rows: a condition or a single column? -/
def isPredicate : Op → Bool
  | .criterion _ _ => true
  | .projection _ [_] _ => true
  | _ => false

/-- The rows of a table for which a condition on that table holds. -/
def addSelection (g : Graph) (tableId criterion : NodeId) : Built := do
  let t ← g.table tableId
  let c ← g.node criterion
  if !isPredicate c.op then refuse (.notACriterion c.op.kind)
  if (← g.expressionBase criterion) != some tableId then refuse (.foreignCriterion c.name t.name)
  pure (g.push (.selection tableId criterion) t.schema)

/-- An equi-join of two tables. -/
def addJoin (g : Graph) (left right : NodeId) (leftOn rightOn : List String) (how : JoinType) :
    Built := do
  let l ← g.table left
  let r ← g.table right
  let layout ← JoinLayout.make l.schema r.schema leftOn rightOn (how == .left)
  pure (g.push (.join left right leftOn rightOn how layout) layout.schema)

/-- The schema of a union once one more source is taken in. -/
def widenBy (g : Graph) (schema : Schema) (id : NodeId) : Except PlanError Schema := do
  let other := (← g.table id).schema
  if !schema.sameColumns other then refuse (.unionColumns schema.names other.names)
  pure ⟨schema.fields.map other.widen⟩

/-- The rows of several tables with the same columns, in the first table's column order. -/
def addUnion (g : Graph) (inputs : List NodeId) : Built := do
  match inputs with
  | [] => refuse .emptyUnion
  | first :: rest =>
    let schema ← rest.foldlM g.widenBy (← g.table first).schema
    pure (g.push (.union inputs) schema)

/-- The rows of a table in sorted order. -/
def addOrderBy (g : Graph) (source : NodeId) (keys : List (String × Bool)) : Built := do
  let schema := (← g.table source).schema
  if keys.isEmpty then refuse .noSortKey
  schema.require (keys.map (·.1))
  pure (g.push (.orderBy source keys) schema)

/-- The first rows of a table. -/
def addLimit (g : Graph) (source : NodeId) (n : Nat) : Built := do
  let schema := (← g.table source).schema
  pure (g.push (.limit source n) schema)

/-! ## Aggregation -/

/-- The rows of a table grouped by keys. -/
def addGroupBy (g : Graph) (source : NodeId) (keys : List String) : Built := do
  let schema := (← g.table source).schema
  if keys.isEmpty then refuse .noGroupKey
  schema.require keys
  pure (g.push (.groupBy source keys) schema)

/-- A grouping cut down to its keys and some columns. -/
def addGroupProjection (g : Graph) (group : NodeId) (columns : List String) : Built := do
  let n ← g.node group
  match n.op with
  | .groupBy t keys =>
    let wanted := keys ++ columns.filter fun c => !keys.contains c
    let schema ← n.schema.project wanted
    pure (g.push (.groupProjection group t keys columns) schema)
  | _ => refuse (.notAGrouping n.name)

/-- What is aggregated: the table that holds the rows, the group keys, and the columns that were
chosen, if any were. -/
def aggregationInput (n : Node) : Except PlanError (NodeId × List String × Option (List String)) :=
  match n.op with
  | .groupBy t keys => pure (t, keys, none)
  | .groupProjection _ t keys columns => pure (t, keys, some columns)
  | .constant _ => refuse .aggregateOfConstant
  | _ => pure (n.id, [], none)

/-- The field of a group key in the result of an aggregation. -/
def keyField (input : Schema) (name : String) : Except PlanError Field :=
  match input.field? name with
  | some f => pure f
  | none => refuse (.missingGroupKey name)

/-- The field of an aggregated column. -/
def aggregateField (input : Schema) (func : AggFunc) (name : String) : Except PlanError Field :=
  match input.field? name with
  | none => refuse (.missingColumn name)
  | some f =>
    if func.requiresNumeric && !(f.type.isNumeric || f.type == .null) then
      refuse (.undefinedAggregate func name f.type)
    else pure ⟨name, func.resultType f.type, func.isNullable⟩

/-- The aggregates of a table, or of each group of a grouping. -/
def addAggregate (g : Graph) (source : NodeId) (func : AggFunc) : Built := do
  let n ← g.node source
  let (input, keys, chosen) ← aggregationInput n
  let schema := (← g.node input).schema
  let columns := (chosen.getD schema.names).filter fun c => !keys.contains c
  if columns.isEmpty then refuse (.nothingToAggregate func)
  let keyFields ← keys.mapM (keyField schema)
  let fields ← columns.mapM (aggregateField schema func)
  pure (g.push (.aggregator source func input keys columns) ⟨keyFields ++ fields⟩)

/-! ## Columns -/

/-- A table with columns renamed. -/
def addRename (g : Graph) (source : NodeId) (mapping : List (String × String)) : Built := do
  let input := (← g.table source).schema
  input.require (mapping.map (·.1))
  let fields := input.fields.map fun f =>
    match mapping.find? (·.1 == f.name) with
    | some (_, renamed) => { f with name := renamed }
    | none => f
  match firstRepeated [] (fields.map (·.name)) with
  | some name => refuse (.duplicateRenamed name)
  | none => pure (g.push (.rename source mapping) ⟨fields⟩)

/-- A table with a column replaced or appended. The target itself does not change. -/
def addAssign (g : Graph) (target : NodeId) (column : String) (value : NodeId) : Built := do
  let t ← g.table target
  match ← g.expressionBase value with
  | some base =>
    if base ≠ target then refuse (.foreignAssignment (← g.node base).name t.name)
  | none => pure ()
  let f ← g.operandField value
  pure (g.push (.assign target column value) (t.schema.put { f with name := column }))

/-! ## Operations in memory only -/

/-- The summary statistics of a table. -/
def addDescribe (g : Graph) (source : NodeId) : Built := do
  let schema := Describe.schema (← g.table source).schema
  pure (g.push (.describe source) schema)

/-- A supplied function of a table, with the columns it declares to yield. -/
def addApply (g : Graph) (source : NodeId) (name : String) (output : Schema) (func : TableFn) :
    Built := do
  let _ ← g.table source
  if output.fields.isEmpty then refuse .noOutputColumns
  match firstRepeated [] output.names with
  | some column => refuse (.repeatedOutputColumn column)
  | none => pure (g.push (.apply source name func) output)

end Graph
end LazyQuery
