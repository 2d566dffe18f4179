import LazyQuery.Graph.Resolve
import LazyQuery.Memory.Footprint

/-!
# Size estimates

How many rows and bytes the result of a node will have. The number of rows is exact once it has been
observed; before that it is estimated from the inputs.

* `Graph.selectivities` estimates, for each node that is a condition, the fraction of rows for which
  it holds.
* `Graph.rowEstimates` estimates the rows of each node. Inputs precede their node, so that both are
  one pass over the nodes.
-/

set_option autoImplicit false

namespace LazyQuery

/-- Part of a number of rows, rounded down. -/
def fractionOf (rows : UInt64) (fraction : Float) : UInt64 := (rows.toFloat * fraction).toUInt64

/-- At least one row of those there are. -/
def withinRows (rows estimate : UInt64) : UInt64 := min (max estimate 1) rows

/-- The fraction of rows assumed where nothing is known. -/
def unknownSelectivity : Float := 0.5

/-- The fraction of rows for which a condition holds, given that of its operands. -/
def Criterion.selectivity (operand : NodeId → Float) : Criterion → Float
  | compare .eq _ _ => 0.1
  | compare .ne _ _ => 0.9
  | compare _ _ _ => 0.33
  | isNull _ => 0.05
  | like _ _ => 0.25
  | not a => 1.0 - operand a
  | and a b => operand a * operand b
  | or a b => operand a + operand b - operand a * operand b

/-- The rows of a join of inputs with the given rows. -/
def JoinType.estimate (how : JoinType) (left right : UInt64) : UInt64 :=
  match how with
  | .inner =>
    withinRows (min left right) (left.toFloat * right.toFloat).sqrt.toUInt64
  | .left => fractionOf left 1.2

/-- The number of distinct keys, given how many columns make up a key. -/
def groupEstimate (rows : UInt64) : Nat → UInt64
  | 0 => 1
  | 1 => withinRows rows (fractionOf rows 0.1)
  | 2 => withinRows rows (fractionOf rows 0.25)
  | 3 => withinRows rows (fractionOf rows 0.4)
  | _ => withinRows rows (fractionOf rows 0.5)

/-- The number of rows of an operation, given those of its inputs and the selectivity of conditions.
-/
def Op.rowEstimate (rows : NodeId → UInt64) (selectivity : NodeId → Float) : Op → UInt64
  | source => 0
  | constant _ => 1
  | projection t columns distinct =>
    if distinct then groupEstimate (rows t) columns.length else rows t
  | selection t c => withinRows (rows t) (fractionOf (rows t) (selectivity c))
  | join l r _ _ how _ => how.estimate (rows l) (rows r)
  | union inputs => inputs.foldl (fun total i => total + rows i) 0
  | limit t n => min (rows t) (saturated n)
  | aggregator _ _ input keys _ => groupEstimate (rows input) keys.length
  | describe _ => UInt64.ofNat Describe.statistics.length
  | criterion owner _ | arithmetic owner _ => rows owner
  | orderBy t _ | groupBy t _ | rename t _ | assign t _ _ | apply t _ _ => rows t
  | groupProjection group _ _ _ => rows group

namespace Graph

/-- The estimated selectivity of each node. -/
def selectivities (g : Graph) : Array Float :=
  g.nodes.foldl (fun found n =>
    found.push (match n.op with
      | .criterion _ c => c.selectivity fun id => (found[id]?).getD unknownSelectivity
      | _ => unknownSelectivity)) #[]

/-- The number of rows of each node, observed or estimated. -/
def rowEstimates (g : Graph) (view : View) : Array UInt64 :=
  let selectivity := g.selectivities
  g.nodes.foldl (fun found n =>
    found.push (match view.knownRows n.id with
      | some rows => rows
      | none =>
        n.op.rowEstimate (fun id => (found[id]?).getD 0)
          fun id => (selectivity[id]?).getD unknownSelectivity)) #[]

/-- The number of rows of a node. -/
def estimatedRows (g : Graph) (view : View) (id : NodeId) : UInt64 :=
  match view.knownRows id with
  | some rows => rows
  | none => ((g.rowEstimates view)[id]?).getD 0

/-- The bytes of a node's result. -/
def estimatedBytes (g : Graph) (view : View) (id : NodeId) : UInt64 :=
  match g.node? id with
  | some n => n.schema.estimateBytes (g.estimatedRows view id)
  | none => 0

end Graph
end LazyQuery
