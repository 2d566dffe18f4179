import LazyQuery.Graph.Build

/-!
# Dependencies

Which ancestors of a node a backend still has to produce, in what order, and whether it can.

What is available already comes in as a `View`. An ancestor is *materialized* on a backend if its
result is there, and *transferable* if one move from the other backend brings it there; the walk
through the ancestors stops at both.

* `dependencyOrder` lists the ancestors to produce, each after its own inputs.
* `checkComputable` refuses a backend on which some of them cannot be produced.
-/

set_option autoImplicit false

namespace LazyQuery

/-- What is known of the nodes' results. -/
structure View where
  /-- Is the result cached in memory? -/
  inMemory : NodeId → Bool
  /-- Is there a table of the result in the relational store? -/
  relational : NodeId → Bool
  /-- Was the result too large to be read into memory? -/
  outOfMemory : NodeId → Bool
  /-- The number of rows, once it has been observed. -/
  knownRows : NodeId → Option UInt64

namespace View

/-- Is the result on the backend? -/
def materialized (v : View) : Backend → NodeId → Bool
  | .inMemory => v.inMemory
  | .relational => v.relational

/-- Can the result be moved to the backend: loaded into the store, or read into memory? -/
def transferable (v : View) : Backend → NodeId → Bool
  | .inMemory => fun id => v.relational id && !v.outOfMemory id
  | .relational => v.inMemory

end View

/-- A walk through ancestors: those visited, and those to produce, in order. -/
structure Walk where
  seen : List NodeId
  order : List NodeId

namespace Walk

/-- Count a node as visited. -/
def mark (w : Walk) (id : NodeId) : Walk := { w with seen := id :: w.seen }

/-- Count a node as visited and list it. -/
def list (w : Walk) (id : NodeId) : Walk := ⟨id :: w.seen, w.order ++ [id]⟩

end Walk

namespace Graph

/-- Visit a node and, before it, its inputs. The `path` holds the nodes whose inputs are being
visited: to come back to one of them is a cycle. The fuel bounds the length of a path. It cannot run
out before a cycle is found, since the nodes of a path are different nodes of the graph. -/
def visit (g : Graph) (backend : Backend) (view : View) :
    Nat → List NodeId → Walk → NodeId → Except PlanError Walk
  | 0, _, _, id => do throw (.invariant (.cycle (← g.node id).name))
  | fuel + 1, path, w, id => do
    if id ∈ w.seen then return w
    if id ∈ path then throw (.invariant (.cycle (← g.node id).name))
    if view.materialized backend id then return w.mark id
    if view.transferable backend id then return w.list id
    let n ← g.node id
    let w ← (n.deps backend).foldlM (g.visit backend view fuel (id :: path)) w
    return w.list id

/-- The ancestors of a node that are not materialized on a backend, each after its inputs. -/
def dependencyOrder (g : Graph) (id : NodeId) (backend : Backend) (view : View) :
    Except PlanError (List NodeId) := do
  let n ← g.node id
  let w ← (n.deps backend).foldlM (g.visit backend view g.size [id]) ⟨[], []⟩
  return w.order

/-- Can the node be produced on the backend, given which of the nodes before it can? -/
def computable (n : Node) (backend : Backend) (view : View) (failed : List NodeId) : Bool :=
  let inputsOk := (n.deps backend).all fun d => !failed.contains d
  match backend with
  | .relational =>
    view.relational n.id || view.inMemory n.id
      || ((n.op.hasStatement || n.op.isContainer) && inputsOk)
  | .inMemory =>
    !view.outOfMemory n.id
      && (view.inMemory n.id || view.relational n.id || (!n.op.isSource && inputsOk))

/-- The nodes of an ordered list that cannot be produced on the backend. -/
def failures (g : Graph) (backend : Backend) (view : View) (order : List NodeId) :
    Except PlanError (List NodeId) :=
  order.foldlM (fun failed id => do
    let n ← g.node id
    pure (if computable n backend view failed then failed else failed ++ [id])) []

/-- Refuse the backend if the node or an ancestor in its order cannot be produced there. -/
def checkComputable (g : Graph) (id : NodeId) (backend : Backend) (view : View) :
    Except PlanError Unit := do
  let order ← g.dependencyOrder id backend view
  match ← g.failures backend view (order ++ [id]) with
  | [] => pure ()
  | failed => throw (.backendUnreachable backend failed.length)

/-! ## Checking orders -/

/-- What is wrong with an order of nodes. -/
inductive OrderFault
  | repeats
  | unknownNode (id : NodeId)
  | unsatisfied (dep : NodeId) (node : String)
  deriving DecidableEq

/-- The text of a faulty order. -/
def OrderFault.message : OrderFault → String
  | repeats => "dependency order repeats a node"
  | unknownNode id => nodeIdText id ++ " is not part of the graph"
  | unsatisfied dep node => "dependency " ++ nodeIdText dep ++ s!" not satisfied before {node}"

/-- The first node of an order, with those before it given, that comes before one of its listed
inputs. -/
def checkInputs (g : Graph) (backend : Backend) (listed : List NodeId) :
    List NodeId → List NodeId → Except OrderFault Unit
  | _, [] => pure ()
  | before, id :: rest =>
    match g.node? id with
    | none => throw (.unknownNode id)
    | some n =>
      match (n.deps backend).find? fun d => listed.contains d && !before.contains d with
      | some dep => throw (.unsatisfied dep n.name)
      | none => g.checkInputs backend listed (before ++ [id]) rest

/-- Refuse an order that repeats a node or lists one before an input that is listed too. -/
def checkOrder (g : Graph) (order : List NodeId) (backend : Backend) : Except OrderFault Unit := do
  if ¬order.Nodup then throw .repeats
  g.checkInputs backend order [] order

end Graph
end LazyQuery
