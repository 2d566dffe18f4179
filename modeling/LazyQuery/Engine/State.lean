import LazyQuery.Memory.Budget
import LazyQuery.Plan.Cost
import LazyQuery.Result
import LazyQuery.Sql.Compile
import LazyQuery.Store.Basic

/-!
# Engines

An `Engine` holds a graph, for each node what is known of its result, the store, and the budget for
results in memory. An operation of the engine changes the engine and the disk, also when it fails:
`EngineM` keeps both.

Here are the state and the operations that compute nothing: adding nodes and base tables, giving up
results, and what can be asked of the engine.

* A result is *cached* with the guard for its bytes.
* A table in the store is known by the generation of the connection it was made on. It counts as
  long as the store is at that generation.
* A result that was *too large* for memory stays in the store.
-/

set_option autoImplicit false

namespace LazyQuery

/-- A result in memory, with the guard for its bytes. -/
structure Cached where
  value : Result
  guard : Guard
  deriving Inhabited

/-- What is known of the result of a node. -/
structure NodeState where
  cached : Option Cached
  /-- The generation at which the store got a table of the result. -/
  relational : Option Nat
  /-- Was the result too large to be read into memory? -/
  outOfMemory : Bool
  /-- The number of rows, once it has been observed. -/
  rows : Option UInt64
  /-- The bytes that were estimated when the result was found to be too large. -/
  estimated : UInt64
  /-- Is the result being computed? -/
  computing : Bool
  deriving Inhabited

/-- The state of a node of which nothing is known. -/
def NodeState.fresh : NodeState := ⟨none, none, false, none, 0, false⟩

/-- A graph with the results of its nodes. -/
structure Engine where
  graph : Graph
  states : Array NodeState
  store : Store
  budget : Budget
  config : Config
  model : CostModel

/-- An engine and the disk it works on. -/
structure Site where
  disk : Disk
  engine : Engine

/-- An operation of the engine. -/
abbrev EngineM := EStateM EngineError Site

namespace Engine

/-- An engine without nodes. The tag tells its tables from those of others in one database. -/
def start (disk : Disk) (tag : String) (config : Config) : Except EngineError Site :=
  match Store.openAt disk (config.databasePath.map .named) with
  | .error e => .error (.store e)
  | .ok m =>
    .ok ⟨m.disk, ⟨.empty tag, #[], m.store, .ofCapacity config.memoryCap, config, .weighted⟩⟩

/-- What is known of the nodes' results. -/
def view (e : Engine) : View where
  inMemory id := e.states[id]?.any fun s => s.cached.isSome
  relational id := e.states[id]?.any fun s => s.relational == some e.store.generation
  outOfMemory id := e.states[id]?.any fun s => s.outOfMemory
  knownRows id := e.states[id]?.bind fun s => s.rows

/-- The bytes of memory that are free for results. -/
def available (e : Engine) : UInt64 := e.budget.available

/-- What the cost model can go by. -/
def costContext (e : Engine) : CostContext := ⟨e.graph, e.view, e.available, e.config.weights⟩

/-- The statement that would produce a node now. -/
def statement (e : Engine) (id : NodeId) : Except PlanError String := do
  pure (← e.graph.query id e.view).render

/-! ## Steps -/

/-- An answer that does not change the engine. -/
def ask {α : Type} (f : Engine → Except EngineError α) : EngineM α := do
  match f (← get).engine with
  | .ok a => pure a
  | .error e => throw e

/-- A change of the engine alone. -/
def update (f : Engine → Engine) : EngineM Unit :=
  modify fun s => { s with engine := f s.engine }

/-- An operation of the store, as one of the engine. -/
def onStore {α : Type} (x : StoreM α) : EngineM α := fun s =>
  match x.run ⟨s.disk, s.engine.store⟩ with
  | .ok a m => .ok a ⟨m.disk, { s.engine with store := m.store }⟩
  | .error e m => .error (.store e) ⟨m.disk, { s.engine with store := m.store }⟩

/-- The node of a number. -/
def node (id : NodeId) : EngineM Node :=
  ask fun e => e.graph.node id

/-- What is known of a node's result. -/
def stateOf (e : Engine) (id : NodeId) : Except EngineError NodeState :=
  match e.states[id]? with
  | some s => pure s
  | none => throw (.plan (.invariant (.noState id)))

/-- What is known of a node's result. -/
def state (id : NodeId) : EngineM NodeState := ask fun e => e.stateOf id

/-- Change what is known of a node's result. -/
def updateState (id : NodeId) (f : NodeState → NodeState) : EngineM Unit := do
  let _ ← state id
  update fun e => { e with states := e.states.modify id f }

/-- Acquire a guard for bytes that are in memory already. -/
def acquireUnchecked (bytes : UInt64) (tag : String) : EngineM Guard := do
  let (g, b) := (← get).engine.budget.acquireUnchecked bytes tag
  update fun e => { e with budget := b }
  pure g

/-- Acquire a guard for bytes that the capacity has to allow. -/
def acquire (bytes : UInt64) (tag : String) : EngineM Guard := do
  let (g, b) ← ask fun e => e.budget.acquire bytes tag
  update fun e => { e with budget := b }
  pure g

/-- Resize a guard to what it really stands for. -/
def resize (g : Guard) (bytes : UInt64) : EngineM Guard := do
  let (g, b) := (← get).engine.budget.resizeUnchecked g bytes
  update fun e => { e with budget := b }
  pure g

/-- Release a guard. -/
def release (g : Guard) : EngineM Unit :=
  update fun e => { e with budget := e.budget.release g }

/-- An operation under a guard, which is released if the operation fails. -/
def guarding {α : Type} (g : Guard) (x : EngineM α) : EngineM α :=
  tryCatch x fun e => do
    release g
    throw e

/-- Keep a result in memory under its guard. -/
def keep (id : NodeId) (rows : UInt64) (value : Result) (guard : Guard) : EngineM Unit :=
  updateState id fun s => { s with rows := some rows, cached := some ⟨value, guard⟩ }

/-- Record that the store has a table of a node's result on the present connection. -/
def markRelational (id : NodeId) : EngineM Unit := do
  let generation := (← get).engine.store.generation
  updateState id fun s => { s with relational := some generation }

/-! ## Nodes -/

/-- Add a node through one of the constructors of graphs. -/
def build (f : Graph → Graph.Built) : EngineM NodeId := do
  let (id, g) ← ask fun e => f e.graph
  update fun e =>
    { e with
      graph := g
      states := e.states ++ Array.replicate (g.size - e.states.size) NodeState.fresh }
  pure id

/-- Add a base table. It is in memory and in the store from the start; if the store refuses it, its
node has no result. -/
def addTable (t : Table) : EngineM NodeId := do
  let schema := t.inferSchema
  let t := t.coerce schema
  let id ← build fun g => g.addSource schema
  let n ← node id
  onStore (Store.bulkLoad n.name t schema)
  let value := Result.table t
  let guard ← acquireUnchecked value.footprint "source"
  markRelational id
  keep id (UInt64.ofNat t.rowCount) value guard
  pure id

/-- Give up the result of a node in memory, unless it is a base table. Was there one? -/
def evict (id : NodeId) : EngineM Bool := do
  let n ← node id
  let s ← state id
  match s.cached with
  | none => pure false
  | some c =>
    if n.op.isSource then pure false
    else
      release c.guard
      updateState id fun s => { s with cached := none }
      pure true

/-! ## The database -/

/-- Move to another database file. Tables in the old one do not count any more. -/
def setDatabase (path : DiskPath) (deleteOld : Bool) : EngineM Unit :=
  onStore (Store.setPath path deleteOld)

/-- Close the database. -/
def close (delete : Bool) : EngineM Unit := onStore (Store.close delete)

/-- Does the database take any space? -/
def hasStorage : EngineM Bool := onStore Store.hasStorage

end Engine
end LazyQuery
