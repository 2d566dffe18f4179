import LazyQuery.Engine.Evaluate
import LazyQuery.Engine.State

/-!
# Computing results

`Engine.compute` yields the result of a node, producing it and whatever it needs on the backend that
the strategy chooses for each node.

* `materialize` leaves a node's result in memory, or, if it is too large, in the store. It does
  nothing for a result that is there already.
* `produceInMemory` first materializes the inputs, then evaluates the node.
* `produceInStore` first brings the ancestors into the store that the node's query cannot contain,
  then creates a table from the query and reads it back.

Under the strategy of least cost a choice is revised if it cannot be carried out: a node stays in
memory if the store cannot produce it, and goes to the store if an input is too large for memory.

A materialization lies within those of nodes that are being computed, so that the number of nodes
bounds how deep it can lie.
-/

set_option autoImplicit false

namespace LazyQuery

/-- The result of a node for a table that was read from the store. -/
def Node.resultOf (n : Node) (t : Table) : Result :=
  match n.op with
  | .aggregator _ _ _ [] _ => .collapse (t.coerce n.schema)
  | _ => .table (t.coerce n.schema)

namespace Engine

/-! ## Choosing a backend -/

/-- Can a choice be revised? -/
def canReroute (e : Engine) : Bool := e.config.strategy == some .best

/-- Can the store not produce the node now? -/
def storeUnreachable (e : Engine) (id : NodeId) : Bool :=
  match e.graph.checkComputable id .relational e.view with
  | .ok _ => false
  | .error _ => true

/-- Is an ancestor that memory would need too large for it? -/
def needsTooLarge (e : Engine) (id : NodeId) : Except PlanError Bool := do
  pure ((← e.graph.dependencyOrder id .inMemory e.view).any e.view.outOfMemory)

/-- The backend to produce a node on. A result that is known to be too large is produced in the
store only. -/
def backendFor (e : Engine) (id : NodeId) : Except PlanError Backend := do
  if e.view.outOfMemory id then pure .relational
  else
    let n ← e.graph.node id
    let chosen ← chooseBackend e.config.strategy e.model e.costContext id
    let reachable :=
      if chosen == .relational && e.canReroute && e.storeUnreachable id then .inMemory else chosen
    if reachable == .inMemory && n.op.hasStatement && e.canReroute then
      pure (if ← e.needsTooLarge id then .relational else .inMemory)
    else pure reachable

/-! ## Single results -/

/-- A result that has to be in memory. -/
def cachedValue (e : Engine) : Fetch := fun id => do
  match (← e.stateOf id).cached with
  | some c => pure c.value
  | none => throw (.plan (.invariant (.neededInMemory (← e.graph.node id).name)))

/-- Fail because a result is too large. -/
def tooLarge {α : Type} (id : NodeId) : EngineM α := do
  let s ← state id
  let n ← node id
  throw (.resultTooLarge n.name s.estimated (← get).engine.available)

/-- Evaluate a node whose inputs are in memory. -/
def evaluateNode (id : NodeId) : EngineM Unit := do
  let value ← ask fun e => e.graph.evaluate e.cachedValue id
  let guard ← acquireUnchecked value.footprint "eval"
  keep id (UInt64.ofNat value.rowCount) value guard

/-- Load a result from memory into the store. -/
def offload (id : NodeId) : EngineM Unit := do
  let value ← ask fun e => e.cachedValue id
  let n ← node id
  let t ← ask fun _ => value.toTable n.columns
  onStore (Store.bulkLoad n.name t n.schema)
  markRelational id

/-- Create a table of a node's result in the store. -/
def createRelational (id : NodeId) : EngineM Unit := do
  let q ← ask fun e => e.graph.query id e.view
  let n ← node id
  onStore (Store.createTableAs n.name q)
  let rows ← onStore (Store.rowCount n.name)
  markRelational id
  updateState id fun s => { s with rows := some (UInt64.ofNat rows) }

/-- Read a result of so many rows from the store into memory, or find it too large. -/
def readIfFits (id : NodeId) (n : Node) (rows : UInt64) : EngineM Unit := do
  let estimated := n.schema.estimateBytes rows
  if (← get).engine.available < estimated then
    updateState id fun s =>
      { s with outOfMemory := true, estimated := estimated, rows := some rows }
  else
    let guard ← acquire estimated "readback"
    let t ← guarding guard (onStore (Store.readTable n.name n.columns))
    let value := n.resultOf t
    let guard ← resize guard value.footprint
    keep id rows value guard

/-- Read a result from the store into memory, or find it too large. -/
def readBack (id : NodeId) : EngineM Unit := do
  let n ← node id
  match (← state id).rows with
  | some rows => readIfFits id n rows
  | none => readIfFits id n (UInt64.ofNat (← onStore (Store.rowCount n.name)))

/-! ## Producing results with what they need -/

/-- The ancestors that a backend has to produce for a node, if it can. -/
def requirements (id : NodeId) (b : Backend) : EngineM (List NodeId) :=
  ask fun e => do
    e.graph.checkComputable id b e.view
    e.graph.dependencyOrder id b e.view

/-- Bring an ancestor into the store, unless it becomes a part of the query. -/
def supply (materialize : NodeId → EngineM Unit) (dep : NodeId) : EngineM Unit := do
  let n ← node dep
  let e := (← get).engine
  let inQuery := !e.config.materializeIntermediates && n.op.hasStatement
  if n.op.isContainer then pure ()
  else if e.view.inMemory dep then
    unless e.view.relational dep do offload dep
  else if inQuery then pure ()
  else if e.view.outOfMemory dep then createRelational dep
  else
    materialize dep
    unless (← get).engine.view.relational dep do offload dep

/-- Produce a node in the store and read the result back. -/
def produceInStore (materialize : NodeId → EngineM Unit) (id : NodeId) : EngineM Unit := do
  let order ← requirements id .relational
  order.forM (supply materialize)
  createRelational id
  unless (← get).engine.view.outOfMemory id do readBack id

/-- Materialize ancestors in turn, up to the first that is too large for memory. -/
def firstTooLarge (materialize : NodeId → EngineM Unit) : List NodeId → EngineM (Option NodeId)
  | [] => pure none
  | dep :: rest => do
    if (← node dep).op.isContainer then firstTooLarge materialize rest
    else
      materialize dep
      if (← get).engine.view.inMemory dep then firstTooLarge materialize rest else pure (some dep)

/-- Produce a node in memory. -/
def produceInMemory (materialize : NodeId → EngineM Unit) (id : NodeId) : EngineM Unit := do
  let order ← requirements id .inMemory
  match ← firstTooLarge materialize order with
  | none => evaluateNode id
  | some dep =>
    if (← node id).op.hasStatement && (← get).engine.canReroute then
      produceInStore materialize id
    else tooLarge dep

/-- Produce a node on a backend. -/
def produce (materialize : NodeId → EngineM Unit) (id : NodeId) : Backend → EngineM Unit
  | .inMemory => produceInMemory materialize id
  | .relational => produceInStore materialize id

/-- Refuse a node that is being computed already. -/
def refuseReentry (id : NodeId) : EngineM Unit := do
  throw (.plan (.invariant (.reentered (← node id).name)))

/-- Materialize a node. The fuel bounds how deep one materialization lies within others. -/
def materializeWithin : Nat → NodeId → EngineM Unit
  | 0, id => refuseReentry id
  | fuel + 1, id => do
    let n ← node id
    if n.op.isContainer then throw (.plan (.invariant (.groupingHasNoResult n.name)))
    let s ← state id
    let relational := (← get).engine.view.relational id
    if s.cached.isSome || (s.outOfMemory && relational) then pure ()
    else if relational then readBack id
    else if s.computing then refuseReentry id
    else
      let b ← ask fun e => e.backendFor id
      updateState id fun s => { s with computing := true }
      try produce (materializeWithin fuel) id b
      finally updateState id fun s => { s with computing := false }

/-- Leave the result of a node in memory, or in the store if it is too large. -/
def materialize (id : NodeId) : EngineM Unit := do
  materializeWithin ((← get).engine.graph.size + 1) id

/-- The result of a node. -/
def compute (id : NodeId) : EngineM Result := do
  materialize id
  match (← state id).cached with
  | some c => pure c.value
  | none => tooLarge id

end Engine
end LazyQuery
