import LazyQuery.Elementwise
import LazyQuery.Graph.Build
import LazyQuery.Result
import LazyQuery.Table.Join

/-!
# Evaluation in memory

The result of one node from the results of its inputs. Where those come from is not decided here:
evaluation is given a function that fetches them.

Operands of an expression are columns as long as the table they belong to; a constant is repeated
for each of its rows.
-/

set_option autoImplicit false

namespace LazyQuery

/-- How the result of an input is had. -/
abbrev Fetch := NodeId → Except EngineError Result

/-- The values of a condition, given how those of an operand are had. -/
def Criterion.values (operand : NodeId → Except EngineError (List Scalar)) :
    Criterion → Except EngineError (List Scalar)
  | .compare op l r => do
    let a ← operand l
    Elementwise.compare op a (← operand r)
  | .like a pattern => do pure (Elementwise.like pattern (← operand a))
  | .isNull a => do pure (Elementwise.isNull (← operand a))
  | .and l r => do
    let a ← operand l
    Elementwise.logical .and a (← operand r)
  | .or l r => do
    let a ← operand l
    Elementwise.logical .or a (← operand r)
  | .not a => do pure (Elementwise.not (← operand a))

/-- The values of an arithmetic expression, given how those of an operand are had. -/
def Arithmetic.values (operand : NodeId → Except EngineError (List Scalar)) :
    Arithmetic → Except EngineError (List Scalar)
  | .binary op l r => do
    let a ← operand l
    Elementwise.arith op a (← operand r)
  | .unary op a => do Elementwise.unary op (← operand a)

/-- The values of an expression as a table of one column, which has the name of the node's. -/
def Node.expressionTable (n : Node) (values : List Scalar) : Except EngineError Result :=
  match n.columns with
  | [] => throw (.frame (.schema (.nodeWithoutOutput n.name)))
  | name :: _ => pure (.table ⟨[⟨name, values⟩]⟩)

/-- The result of a supplied function, which has to yield the columns it declares. -/
def Node.applied (n : Node) (name : String) (func : TableFn) (t : Table) :
    Except PlanError Table := do
  let out ← func t
  if out.names ≠ n.columns then throw (.schema (.undeclaredOutput name out.names n.columns))
  pure (out.coerce n.schema)

namespace Graph

/-- The result of an input with the names of its columns. -/
def inputValue (g : Graph) (fetch : Fetch) (id : NodeId) :
    Except EngineError (Result × List String) := do
  let r ← fetch id
  pure (r, (← g.node id).columns)

/-- The result of an input as a table. -/
def inputTable (g : Graph) (fetch : Fetch) (id : NodeId) : Except EngineError Table := do
  let (r, columns) ← g.inputValue fetch id
  r.toTable columns

/-- The values of an operand over a number of rows. -/
def operandValues (g : Graph) (fetch : Fetch) (rows : Nat) (id : NodeId) :
    Except EngineError (List Scalar) := do
  let n ← g.node id
  match n.op with
  | .constant v => pure (List.replicate rows v)
  | _ =>
    match (← g.inputTable fetch id).columns with
    | [] => throw (.frame (.schema (.nodeWithoutColumns n.name)))
    | c :: _ =>
      if c.values.length = rows then pure c.values
      else throw (.frame (.length rows c.values.length))

/-- The result of a node from the results of its inputs. -/
def evaluate (g : Graph) (fetch : Fetch) (id : NodeId) : Except EngineError Result := do
  let n ← g.node id
  let input := g.inputTable fetch
  match n.op with
  | .source | .groupBy _ _ | .groupProjection _ _ _ _ =>
    throw (.plan (.invariant (.neverEvaluated n.name n.op.kind)))
  | .constant v => pure (.scalar v)
  | .criterion owner c =>
    let t ← input owner
    n.expressionTable (← Criterion.values (g.operandValues fetch t.rowCount) c)
  | .arithmetic owner a =>
    let t ← input owner
    n.expressionTable (← Arithmetic.values (g.operandValues fetch t.rowCount) a)
  | .projection source columns distinct =>
    let selected ← (← input source).select columns
    if distinct then pure (.table (← selected.dropDuplicates)) else pure (.table selected)
  | .selection source criterion =>
    let t ← input source
    let mask ← g.operandValues fetch t.rowCount criterion
    pure (.table (← t.filter mask))
  | .join left right leftOn rightOn how layout =>
    let l ← g.inputValue fetch left
    let r ← g.inputValue fetch right
    let leftTable ← l.1.toTable l.2
    let rightTable ← r.1.toTable r.2
    pure (.table (← leftTable.join rightTable leftOn rightOn how layout))
  | .union inputs =>
    let results ← inputs.mapM (g.inputValue fetch)
    let tables ← results.mapM fun (r, columns) => r.toTable columns
    pure (.table (← Table.concat tables n.columns))
  | .orderBy source keys => pure (.table (← (← input source).sortValues keys))
  | .limit source k => pure (.table ((← input source).limit k))
  | .aggregator _ func source keys columns =>
    let t ← input source
    if keys.isEmpty then pure (.collapse (← t.aggregateTable func columns))
    else pure (.table (← t.aggregateGroups keys columns func))
  | .rename source mapping => pure (.table (← (← input source).rename mapping))
  | .assign source column value =>
    let t ← input source
    let values ← g.operandValues fetch t.rowCount value
    pure (.table (← t.assignColumn column values))
  | .describe source => pure (.table (← Describe.describe (← input source)))
  | .apply source name func => pure (.table (← n.applied name func (← input source)))

end Graph
end LazyQuery
