import LazyQuery.Proofs.Engine.Run
import LazyQuery.Proofs.Store.Statements

/-!
# Operations as scripts

An operation of an engine sends statements to its database, and between two of them others may use the
database too. As a program of `EngineM` an operation does not show where that can be; as a `Script` it
does.

* A `Course` is what an operation has yet to do: it has ended, or it sends a statement and goes on with
  what comes of it. `Course.on` is the end that it comes to if nobody else uses the disk.
* A `Script` is an operation by its course. Whatever has nothing to do with the disk is taken over as it
  is (`Script.lift`).
* The scripts of the operations are those operations again, step by step, with statements for the
  operations of the store. That they do the same is said in `LazyQuery.Proofs.Engine.Following`.
* A `Request` is an operation that leaves the engine on its file, and a `Reply` its answer.
-/

set_option autoImplicit false

namespace LazyQuery

open Sql

/-- An ending as an answer or an error, and the last state. -/
def outcome {ε σ α : Type} : EStateM.Result ε σ α → Except ε α × σ
  | .ok a s => (.ok a, s)
  | .error e s => (.error e, s)

/-- What an operation has yet to do: nothing, as it has ended, or a statement to send, after which it goes
on with what comes of it. The engine is as the operation has left it so far. -/
inductive Course (α : Type)
  | ended (r : Except EngineError α) (e : Engine)
  | sends (p : Statement) (e : Engine) (next : Except StoreError p.Answer → Course α)

namespace Course

variable {α β : Type}

/-- The end that the course comes to on a disk that nobody else uses. -/
def on : Course α → Disk → Except EngineError α × Site
  | ended r e, d => (r, ⟨d, e⟩)
  | sends p e next, d => (next (p.send e.store d).1).on (p.send e.store d).2

/-- The course that goes on where this one has ended. -/
def andThen (c : Course α) (f : Except EngineError α → Engine → Course β) : Course β :=
  match c with
  | ended r e => f r e
  | sends p e next => sends p e fun a => (next a).andThen f

theorem on_andThen (c : Course α) (f : Except EngineError α → Engine → Course β) (d : Disk) :
    (c.andThen f).on d = (f (c.on d).1 (c.on d).2.engine).on (c.on d).2.disk := by
  induction c generalizing d with
  | ended r e => rfl
  | sends p e next ih => exact ih _ _

end Course

/-- An operation of the engine by its course. -/
def Script (α : Type) : Type := Engine → Course α

namespace Script

variable {α β : Type}

instance : Monad Script where
  pure a e := .ended (.ok a) e
  bind x f e := (x e).andThen fun r e =>
    match r with
    | .ok a => f a e
    | .error err => .ended (.error err) e

instance : MonadExcept EngineError Script where
  throw err e := .ended (.error err) e
  tryCatch x handle e := (x e).andThen fun r e =>
    match r with
    | .ok a => .ended (.ok a) e
    | .error err => handle err e

/-- The script `x`, and then `y`, whether `x` has an answer or an error. -/
def finallyDo (x : Script α) (y : Script Unit) : Script α := fun e =>
  (x e).andThen fun r e => (y e).andThen fun r' e =>
    match r' with
    | .ok _ => .ended r e
    | .error err => .ended (.error err) e

/-- The engine. -/
def engine : Script Engine := fun e => .ended (.ok e) e

/-- An operation that has nothing to do with the disk. -/
def lift (x : EngineM α) : Script α := fun e =>
  .ended (outcome (x ⟨.empty, e⟩)).1 (outcome (x ⟨.empty, e⟩)).2.engine

/-- A statement. -/
def send (p : Statement) : Script p.Answer := fun e =>
  .sends p e fun a => .ended (a.mapError .store) e

/-! ## Scripts of operations -/

/-- Adjust the counters. -/
def count (f : StoreCounters → StoreCounters) : Script Unit := lift (Engine.onStore (Store.count f))

/-- `Store.createTableAs`. -/
def createTableAs (name : String) (q : Query) : Script Unit := do
  send (.drop name)
  send (.createAs name q)
  count fun c => { c with tablesCreated := c.tablesCreated + 1 }

/-- `Store.bulkLoad`. -/
def bulkLoad (name : String) (t : Table) (s : Schema) : Script Unit := do
  send (.drop name)
  send (.create name s)
  send (.insert name t)
  count fun c => { c with tablesLoaded := c.tablesLoaded + 1 }

/-- `Store.readTable`. -/
def readTable (name : String) (columns : List String) : Script Table := do
  let t : Table ← send (.read name columns)
  count fun c => { c with rowsRead := c.rowsRead + t.rowCount }
  pure t

open Engine (ask node state updateState acquire resize release keep markRelational)

/-- `Engine.offload`. -/
def offload (id : NodeId) : Script Unit := do
  let value ← lift (ask fun e => e.cachedValue id)
  let n ← lift (node id)
  let t ← lift (ask fun _ => value.toTable n.columns)
  bulkLoad n.name t n.schema
  lift (markRelational id)

/-- `Engine.createRelational`. -/
def createRelational (id : NodeId) : Script Unit := do
  let q ← lift (ask fun e => e.graph.query id e.view)
  let n ← lift (node id)
  createTableAs n.name q
  let rows : Nat ← send (.count n.name)
  lift (markRelational id)
  lift (updateState id fun s => { s with rows := some (UInt64.ofNat rows) })

/-- `Engine.readIfFits`. -/
def readIfFits (id : NodeId) (n : Node) (rows : UInt64) : Script Unit := do
  let estimated := n.schema.estimateBytes rows
  if (← engine).available < estimated then
    lift (updateState id fun s =>
      { s with outOfMemory := true, estimated := estimated, rows := some rows })
  else
    let guard ← lift (acquire estimated "readback")
    let t ← tryCatch (readTable n.name n.columns) fun err => do
      lift (release guard)
      throw err
    let value := n.resultOf t
    let guard ← lift (resize guard value.footprint)
    lift (keep id rows value guard)

/-- `Engine.readBack`. -/
def readBack (id : NodeId) : Script Unit := do
  let n ← lift (node id)
  match (← lift (state id)).rows with
  | some rows => readIfFits id n rows
  | none =>
    let rows : Nat ← send (.count n.name)
    readIfFits id n (UInt64.ofNat rows)

/-- `Engine.supply`. -/
def supply (materialize : NodeId → Script Unit) (dep : NodeId) : Script Unit := do
  let n ← lift (node dep)
  let e ← engine
  let inQuery := !e.config.materializeIntermediates && n.op.hasStatement
  if n.op.isContainer then pure ()
  else if e.view.inMemory dep then
    unless e.view.relational dep do offload dep
  else if inQuery then pure ()
  else if e.view.outOfMemory dep then createRelational dep
  else
    materialize dep
    unless (← engine).view.relational dep do offload dep

/-- `Engine.produceInStore`. -/
def produceInStore (materialize : NodeId → Script Unit) (id : NodeId) : Script Unit := do
  let order ← lift (Engine.requirements id .relational)
  order.forM (supply materialize)
  createRelational id
  unless (← engine).view.outOfMemory id do readBack id

/-- `Engine.firstTooLarge`. -/
def firstTooLarge (materialize : NodeId → Script Unit) : List NodeId → Script (Option NodeId)
  | [] => pure none
  | dep :: rest => do
    if (← lift (node dep)).op.isContainer then firstTooLarge materialize rest
    else
      materialize dep
      if (← engine).view.inMemory dep then firstTooLarge materialize rest else pure (some dep)

/-- `Engine.produceInMemory`. -/
def produceInMemory (materialize : NodeId → Script Unit) (id : NodeId) : Script Unit := do
  let order ← lift (Engine.requirements id .inMemory)
  match ← firstTooLarge materialize order with
  | none => lift (Engine.evaluateNode id)
  | some dep =>
    if (← lift (node id)).op.hasStatement && (← engine).canReroute then
      produceInStore materialize id
    else lift (Engine.tooLarge dep)

/-- `Engine.produce`. -/
def produce (materialize : NodeId → Script Unit) (id : NodeId) : Backend → Script Unit
  | .inMemory => produceInMemory materialize id
  | .relational => produceInStore materialize id

/-- `Engine.materializeWithin`. -/
def materializeWithin : Nat → NodeId → Script Unit
  | 0, id => lift (Engine.refuseReentry id)
  | fuel + 1, id => do
    let n ← lift (node id)
    if n.op.isContainer then throw (.plan (.invariant (.groupingHasNoResult n.name)))
    let s ← lift (state id)
    let relational := (← engine).view.relational id
    if s.cached.isSome || (s.outOfMemory && relational) then pure ()
    else if relational then readBack id
    else if s.computing then lift (Engine.refuseReentry id)
    else
      let b ← lift (ask fun e => e.backendFor id)
      lift (updateState id fun s => { s with computing := true })
      finallyDo (produce (materializeWithin fuel) id b)
        (lift (updateState id fun s => { s with computing := false }))

/-- `Engine.materialize`. -/
def materialize (id : NodeId) : Script Unit := do
  materializeWithin ((← engine).graph.size + 1) id

/-- `Engine.compute`. -/
def compute (id : NodeId) : Script Result := do
  materialize id
  match (← lift (state id)).cached with
  | some c => pure c.value
  | none => lift (Engine.tooLarge id)

/-- `Engine.addTable`. -/
def addTable (t : Table) : Script NodeId := do
  let schema := t.inferSchema
  let t := t.coerce schema
  let id ← lift (Engine.build fun g => g.addSource schema)
  let n ← lift (node id)
  bulkLoad n.name t schema
  let value := Result.table t
  let guard ← lift (Engine.acquireUnchecked value.footprint "source")
  lift (markRelational id)
  lift (keep id (UInt64.ofNat t.rowCount) value guard)
  pure id

end Script

/-! ## Requests -/

/-- What an engine can be asked for that leaves it on its file. -/
inductive Request
  | build (c : Construction)
  | addTable (t : Table)
  | compute (id : NodeId)
  | evict (id : NodeId)
  | setStrategy (strategy : Option Strategy)
  | setCostModel (model : CostModel)

/-- The answer to a request. -/
inductive Reply
  | node (id : NodeId)
  | result (value : Result)
  /-- Was there a result in memory? -/
  | evicted (had : Bool)
  | done

namespace Request

/-- The request as a program of the engine. -/
def answer : Request → EngineM Reply
  | build c => do pure (.node (← Engine.build fun g => c.call g))
  | addTable t => do pure (.node (← Engine.addTable t))
  | compute id => do pure (.result (← Engine.compute id))
  | evict id => do pure (.evicted (← Engine.evict id))
  | setStrategy strategy => do
    Engine.update fun e => { e with config := { e.config with strategy := strategy } }
    pure .done
  | setCostModel model => do
    Engine.update fun e => { e with model := model }
    pure .done

/-- The request as a script. -/
def script : Request → Script Reply
  | build c => do pure (.node (← Script.lift (Engine.build fun g => c.call g)))
  | addTable t => do pure (.node (← Script.addTable t))
  | compute id => do pure (.result (← Script.compute id))
  | evict id => do pure (.evicted (← Script.lift (Engine.evict id)))
  | setStrategy strategy => do
    Script.lift (Engine.update fun e => { e with config := { e.config with strategy := strategy } })
    pure .done
  | setCostModel model => do
    Script.lift (Engine.update fun e => { e with model := model })
    pure .done

/-- The operation that is asked for. -/
def operation : Request → Operation
  | build c => .build c
  | addTable t => .addTable t
  | compute id => .compute id
  | evict id => .evict id
  | setStrategy strategy => .setStrategy strategy
  | setCostModel model => .setCostModel model

/-- A request does what its operation does, and answers. -/
theorem run_operation (r : Request) : r.operation.run = (do let _ ← r.answer) := by
  cases r <;> simp only [operation, Operation.run, answer, bind_assoc, pure_bind] <;> rfl

end Request
end LazyQuery
