import LazyQuery.Config
import LazyQuery.Plan.Estimate

/-!
# Cost models

A `CostModel` says of a node whether the relational store should produce it. The one that engines
start with, `CostModel.weighted`, moves a node to the store when memory would not hold what the node
needs, or when loading, reading and scanning there cost less than in memory.
-/

set_option autoImplicit false

namespace LazyQuery

/-- What a cost model can go by. -/
structure CostContext where
  graph : Graph
  view : View
  /-- The bytes of memory that are free for results. -/
  available : UInt64
  weights : CostWeights

/-- Should the relational store produce a node? -/
abbrev CostModel := CostContext → NodeId → Bool

/-- The node whose table an input stands for: a grouping stands for the table it groups. -/
def Graph.dataOf (g : Graph) (id : NodeId) : NodeId :=
  match g.node? id with
  | none => id
  | some n =>
    match n.op with
    | .groupBy t _ | .groupProjection _ t _ _ => t
    | _ => id

/-- The nodes whose tables a node reads. -/
def Graph.dataInputs (g : Graph) (id : NodeId) : List NodeId :=
  match g.node? id with
  | some n => n.op.sources.map g.dataOf
  | none => []

namespace CostContext

/-- The estimated bytes of some nodes together. -/
def totalBytes (c : CostContext) (ids : List NodeId) : UInt64 :=
  ids.foldl (fun total id => saturatingAdd total (c.graph.estimatedBytes c.view id)) 0

/-- The bytes of the inputs that are not in memory yet. -/
def missingInMemory (c : CostContext) (inputs : List NodeId) : UInt64 :=
  c.totalBytes (inputs.filter fun i => !c.view.inMemory i)

/-- The bytes of the inputs that are not in the store yet. -/
def missingInStore (c : CostContext) (inputs : List NodeId) : UInt64 :=
  c.totalBytes (inputs.filter fun i => !c.view.relational i)

/-- The cost of producing a node in the store and reading its result. -/
def storeCost (c : CostContext) (id : NodeId) (inputs : List NodeId) : Float :=
  c.weights.load * (c.missingInStore inputs).toFloat
    + c.weights.read * (c.graph.estimatedBytes c.view id).toFloat
    + c.weights.storeScan * (c.totalBytes inputs).toFloat

/-- The cost of producing a node in memory. -/
def memoryCost (c : CostContext) (inputs : List NodeId) : Float :=
  c.weights.read * (c.missingInMemory inputs).toFloat
    + c.weights.memoryScan * (c.totalBytes inputs).toFloat

end CostContext

namespace CostModel

/-- The model that weighs the bytes to be moved and scanned. An input that is too large for memory
leaves the store as the only place. -/
def weighted : CostModel := fun c id =>
  match c.graph.node? id with
  | none => false
  | some n =>
    if n.op.isSource || n.op.isFallback then false
    else
      let inputs := c.graph.dataInputs id
      if inputs.any c.view.outOfMemory then true
      else if c.available <
          saturatingAdd (c.missingInMemory inputs) (c.graph.estimatedBytes c.view id) then true
      else c.storeCost id inputs < c.memoryCost inputs

/-- The model that gives one answer for every node. -/
def constant (answer : Bool) : CostModel := fun _ _ => answer

end CostModel

/-- The backend for a node under a strategy. Base tables, constants and operations that only memory
can perform are produced in memory whatever the strategy. -/
def chooseBackend (strategy : Option Strategy) (model : CostModel) (c : CostContext) (id : NodeId) :
    Except PlanError Backend := do
  let some strategy := strategy | throw (.config .noStrategy)
  let n ← c.graph.node id
  match n.op, strategy with
  | .source, _ | .constant _, _ | .describe _, _ | .apply _ _ _, _ => pure .inMemory
  | _, .always => pure .relational
  | _, .never => pure .inMemory
  | _, .best => pure (if model c id then .relational else .inMemory)

end LazyQuery
