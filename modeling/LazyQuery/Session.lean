import LazyQuery.Document.Csv
import LazyQuery.Document.Records
import LazyQuery.Engine.Compute

/-!
# Sessions

A `Workspace` is a disk and the sessions on it, each with an engine of its own. A `Frame` is a
handle on a node of one session: a table, a column, a condition or an expression that has not been
computed yet. Every operation on frames adds a node and yields a handle on it; its operands have to
be of one session.

Operations change the workspace, also when they fail: `WorkspaceM` keeps it.
-/

set_option autoImplicit false

namespace LazyQuery

/-- The number of a session in its workspace. -/
abbrev SessionId := Nat

/-- Sessions on one disk. -/
structure Workspace where
  disk : Disk
  engines : Array Engine

/-- An operation on a workspace. -/
abbrev WorkspaceM := EStateM EngineError Workspace

/-- A handle on a node of a session. -/
structure Frame where
  session : SessionId
  node : NodeId
  deriving DecidableEq, Inhabited

/-- Rows grouped by keys, waiting for an aggregation. -/
structure Grouping where
  frame : Frame
  deriving DecidableEq, Inhabited

/-- The right side of a comparison, of arithmetic or of an assignment. -/
inductive Operand
  | frame (f : Frame)
  | value (v : Scalar)
  deriving DecidableEq

namespace Workspace

/-- A workspace without sessions. -/
def empty : Workspace := ⟨.empty, #[]⟩

/-- Refuse a frame of another session. -/
def foreign {α : Type} : WorkspaceM α := throw (.plan (.construction .foreignSession))

/-- An operation of a session's engine. -/
def onEngine {α : Type} (s : SessionId) (x : EngineM α) : WorkspaceM α := fun w =>
  match w.engines[s]? with
  | none => foreign w
  | some engine =>
    match x.run ⟨w.disk, engine⟩ with
    | .ok a site => .ok a ⟨site.disk, w.engines.setIfInBounds s site.engine⟩
    | .error e site => .error e ⟨site.disk, w.engines.setIfInBounds s site.engine⟩

/-- Add a session. The tag tells its tables from those of others in one database. -/
def addSession (tag : String) (config : Config) : WorkspaceM SessionId := fun w =>
  match Engine.start w.disk tag config with
  | .error e => .error e w
  | .ok site => .ok w.engines.size ⟨site.disk, w.engines.push site.engine⟩

/-- Add a node to a session's graph. -/
def build (s : SessionId) (f : Graph → Graph.Built) : WorkspaceM Frame := do
  pure ⟨s, ← onEngine s (Engine.build f)⟩

/-- The node of a frame, which must be of the given session. -/
def own (s : SessionId) (f : Frame) : WorkspaceM NodeId :=
  if f.session = s then pure f.node else foreign

/-- A step that can fail, as an operation on a workspace. -/
def step {α : Type} (x : Except EngineError α) : WorkspaceM α :=
  match x with
  | .ok a => pure a
  | .error e => throw e

/-! ## Base tables -/

/-- A frame of a table. -/
def ofTable (s : SessionId) (t : Table) : WorkspaceM Frame := do
  pure ⟨s, ← onEngine s (Engine.addTable t)⟩

/-- A frame of rows. -/
def ofRows (s : SessionId) (names : List String) (rows : List (List Scalar)) :
    WorkspaceM Frame := do
  let t ← step ((Table.ofRows names rows).mapError fun e => .plan (.construction e))
  ofTable s t

/-- A frame of a table that has been read from a file. -/
def ofDocument (s : SessionId) (t : Except StoreError Table) : WorkspaceM Frame := do
  ofTable s (← step (t.mapError .store))

/-- A frame of the rows of several frames. -/
def concat (s : SessionId) (frames : List Frame) : WorkspaceM Frame := do
  let ids ← frames.mapM (own s)
  build s fun g => g.addUnion ids

end Workspace

open Workspace

namespace Frame

/-- Add a node to the graph of a frame's session. -/
def derive (f : Frame) (add : Graph → Graph.Built) : WorkspaceM Frame := build f.session add

/-- The node of an operand. A value becomes a constant, also if the operation then fails. -/
def operand (f : Frame) : Operand → WorkspaceM NodeId
  | .frame other => own f.session other
  | .value v => do pure (← f.derive fun g => pure (g.addConstant v)).node

/-- What a frame's node is. -/
def details (f : Frame) : WorkspaceM Node := onEngine f.session (Engine.node f.node)

/-- The columns of a frame. -/
def columns (f : Frame) : WorkspaceM (List String) := do
  pure (← f.details).columns

/-- The nodes that were derived from a frame directly. -/
def dependents (f : Frame) : WorkspaceM (List NodeId) :=
  onEngine f.session (Engine.ask fun e => pure (e.graph.dependents f.node))

/-! ## Columns and rows -/

/-- Some columns. -/
def select (f : Frame) (columns : List String) : WorkspaceM Frame :=
  f.derive fun g => g.addProjection f.node columns false

/-- One column, which can be an operand of an expression. -/
def column (f : Frame) (name : String) : WorkspaceM Frame := f.select [name]

/-- The rows for which a condition holds. -/
def filter (f criterion : Frame) : WorkspaceM Frame := do
  let c ← own f.session criterion
  f.derive fun g => g.addSelection f.node c

/-- The frame with columns renamed. -/
def rename (f : Frame) (mapping : List (String × String)) : WorkspaceM Frame :=
  f.derive fun g => g.addRename f.node mapping

/-- The rows in the order of some columns, all ascending or all descending. -/
def sortBy (f : Frame) (columns : List String) (ascending : Bool) : WorkspaceM Frame :=
  f.derive fun g => g.addOrderBy f.node (columns.map fun c => (c, ascending))

/-- The first rows. -/
def head (f : Frame) (n : Nat) : WorkspaceM Frame :=
  f.derive fun g => g.addLimit f.node n

/-- The rows without repetitions. -/
def dropDuplicates (f : Frame) : WorkspaceM Frame := do
  let columns ← f.columns
  f.derive fun g => g.addProjection f.node columns true

/-- The frame with a column replaced or appended. -/
def assign (f : Frame) (column : String) (value : Operand) : WorkspaceM Frame := do
  let v ← f.operand value
  f.derive fun g => g.addAssign f.node column v

/-- The summary statistics. -/
def describe (f : Frame) : WorkspaceM Frame :=
  f.derive fun g => g.addDescribe f.node

/-- A supplied function of the table. -/
def apply (f : Frame) (name : String) (output : Schema) (func : TableFn) : WorkspaceM Frame :=
  f.derive fun g => g.addApply f.node name output func

/-! ## Expressions -/

/-- A comparison. -/
def compare (f : Frame) (op : CompareOp) (right : Operand) : WorkspaceM Frame := do
  let r ← f.operand right
  f.derive fun g => g.addCompare op f.node r

/-- The match against a pattern. -/
def like (f : Frame) (pattern : String) : WorkspaceM Frame :=
  f.derive fun g => g.addLike f.node pattern

/-- The test for null. -/
def isNull (f : Frame) : WorkspaceM Frame :=
  f.derive fun g => g.addIsNull f.node

/-- The conjunction or disjunction of two conditions. -/
def connect (f : Frame) (op : Connective) (other : Frame) : WorkspaceM Frame := do
  let r ← own f.session other
  f.derive fun g => g.addLogical op f.node (some r)

/-- The negation of a condition. -/
def not (f : Frame) : WorkspaceM Frame :=
  f.derive fun g => g.addLogical .not f.node none

/-- A binary arithmetic expression. -/
def arith (f : Frame) (op : ArithOp) (right : Operand) : WorkspaceM Frame := do
  let r ← f.operand right
  f.derive fun g => g.addArith op f.node r

/-- A unary arithmetic expression. -/
def unary (f : Frame) (op : UnaryOp) : WorkspaceM Frame :=
  f.derive fun g => g.addUnary op f.node

/-! ## Several frames -/

/-- The join of two frames on paired columns. -/
def joinOn (f other : Frame) (leftOn rightOn : List String) (how : JoinType) :
    WorkspaceM Frame := do
  let r ← own f.session other
  f.derive fun g => g.addJoin f.node r leftOn rightOn how

/-- The join of two frames on columns that both have. -/
def merge (f other : Frame) (on : List String) (how : JoinType) : WorkspaceM Frame :=
  f.joinOn other on on how

/-- The rows of several frames. -/
def union (f : Frame) (others : List Frame) : WorkspaceM Frame := do
  let ids ← others.mapM (own f.session)
  f.derive fun g => g.addUnion (f.node :: ids)

/-! ## Aggregation -/

/-- The aggregate of every column. -/
def aggregate (f : Frame) (func : AggFunc) : WorkspaceM Frame :=
  f.derive fun g => g.addAggregate f.node func

/-- The rows grouped by keys. -/
def groupBy (f : Frame) (keys : List String) : WorkspaceM Grouping := do
  pure ⟨← f.derive fun g => g.addGroupBy f.node keys⟩

end Frame

namespace Grouping

/-- The grouping cut down to its keys and some columns. -/
def select (g : Grouping) (columns : List String) : WorkspaceM Grouping := do
  pure ⟨← g.frame.derive fun graph => graph.addGroupProjection g.frame.node columns⟩

/-- The aggregate of every column within each group. -/
def aggregate (g : Grouping) (func : AggFunc) : WorkspaceM Frame := g.frame.aggregate func

end Grouping

namespace Frame

/-! ## Results -/

/-- The result of a frame. -/
def compute (f : Frame) : WorkspaceM Result := onEngine f.session (Engine.compute f.node)

/-- The result of a frame as a table. -/
def toTable (f : Frame) : WorkspaceM Table := do
  let r ← f.compute
  let columns ← f.columns
  step ((r.toTable columns).mapError .frame)

/-- The statement that would produce the result now. -/
def statement (f : Frame) : WorkspaceM String :=
  onEngine f.session (Engine.ask fun e => e.statement f.node)

/-- Was the result too large for memory? -/
def isOutOfMemory (f : Frame) : WorkspaceM Bool :=
  onEngine f.session (Engine.ask fun e => pure (e.view.outOfMemory f.node))

/-- Give up the result in memory. Was there one? -/
def evict (f : Frame) : WorkspaceM Bool := onEngine f.session (Engine.evict f.node)

end Frame

namespace Workspace

/-- The join of two frames on columns that both have, the first being of the given session. -/
def merge (s : SessionId) (left right : Frame) (on : List String) (how : JoinType) :
    WorkspaceM Frame := do
  let _ ← own s left
  left.merge right on how

/-! ## Settings -/

/-- Set or take away the strategy of a session. -/
def setStrategy (s : SessionId) (strategy : Option Strategy) : WorkspaceM Unit :=
  onEngine s (Engine.update fun e => { e with config := { e.config with strategy := strategy } })

/-- Set the cost model of a session. -/
def setCostModel (s : SessionId) (model : CostModel) : WorkspaceM Unit :=
  onEngine s (Engine.update fun e => { e with model := model })

/-- Move a session to another database file. -/
def setDatabase (s : SessionId) (path : DiskPath) (deleteOld : Bool) : WorkspaceM Unit :=
  onEngine s (Engine.setDatabase path deleteOld)

/-- Close the database of a session. -/
def close (s : SessionId) (delete : Bool) : WorkspaceM Unit := onEngine s (Engine.close delete)

/-- Does the database of a session take any space? -/
def hasStorage (s : SessionId) : WorkspaceM Bool := onEngine s Engine.hasStorage

end Workspace
end LazyQuery
