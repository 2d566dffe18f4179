import LazyQuery.Graph.Resolve
import LazyQuery.Sql.Query

/-!
# Queries for nodes

The query whose result is that of a node.

* `Graph.expression` is a condition or arithmetic node as an expression over the columns of the
  table it belongs to; operands are put in place.
* `Graph.compound` is a node's own query over its sources by name.
* `Graph.query` puts before it every ancestor that has no table of its own yet, as a named result.
-/

set_option autoImplicit false

namespace LazyQuery

open Sql

/-- An arithmetic operator on two expressions. Division is one of floats, and the exclusive or of
two words is their union less their intersection. -/
def ArithOp.expr (op : ArithOp) (l r : Expr) : Expr :=
  match op with
  | add => .arith .add l r
  | sub => .arith .sub l r
  | mul => .arith .mul l r
  | div => .arith .div (.asReal l) r
  | rem => .arith .rem l r
  | bitAnd => .arith .bitAnd l r
  | bitOr => .arith .bitOr l r
  | bitXor => .arith .sub (.arith .bitOr l r) (.arith .bitAnd l r)

/-- A unary operator on an expression. -/
def UnaryOp.expr : UnaryOp → Expr → Expr
  | neg => .neg
  | bitNot => .bitNot

namespace Graph

/-- The expression of an operand. The fuel bounds the depth of nesting; operands precede the nodes
that use them. -/
def expressionWithin (g : Graph) : Nat → NodeId → Except PlanError Expr
  | 0, id => do throw (.invariant (.cycle (← g.node id).name))
  | fuel + 1, id => do
    let n ← g.node id
    let operand := g.expressionWithin fuel
    match n.op with
    | .constant v => pure (.literal v)
    | .projection t [c] _ => pure (.column (← g.node t).name c)
    | .criterion _ c =>
      match c with
      | .compare op l r => pure (.compare op (← operand l) (← operand r))
      | .like a p => pure (.like (← operand a) p)
      | .isNull a => pure (.isNull (← operand a))
      | .and l r => pure (.and (← operand l) (← operand r))
      | .or l r => pure (.or (← operand l) (← operand r))
      | .not a => pure (.not (← operand a))
    | .arithmetic _ a =>
      match a with
      | .binary op l r => pure (op.expr (← operand l) (← operand r))
      | .unary op a => pure (op.expr (← operand a))
    | op => throw (.invariant (.notInExpression n.name op.kind))

/-- The expression of a constant, column, condition or arithmetic node. -/
def expression (g : Graph) (id : NodeId) : Except PlanError Expr :=
  g.expressionWithin (g.size + 1) id

/-- Columns of a table under their own names. -/
def columnItems (table : String) (columns : List String) : List Item :=
  columns.map fun c => ⟨.column table c, none⟩

/-- All columns of a node's table. -/
def allItems (n : Node) : List Item := columnItems n.name n.columns

/-- The items of a renaming. -/
def renameItems (n : Node) (mapping : List (String × String)) : List Item :=
  n.columns.map fun c =>
    match mapping.find? (·.1 == c) with
    | some (_, renamed) => ⟨.column n.name c, some renamed⟩
    | none => ⟨.column n.name c, none⟩

/-- The items of an assignment: the value stands in the place of the column, or at the end. -/
def assignItems (n : Node) (column : String) (value : Expr) : List Item :=
  let item : Item := ⟨value, some column⟩
  let placed := n.columns.map fun c => if c = column then item else ⟨.column n.name c, none⟩
  if n.columns.contains column then placed else placed ++ [item]

/-- The `SELECT` of a join. The right side of a join of a table with itself is renamed. -/
def joinSelect (left right : Node) (leftOn rightOn : List String) (how : JoinType)
    (layout : JoinLayout) : Select :=
  let selfJoin := left.id == right.id
  let rightName := if selfJoin then right.name ++ "_rhs" else right.name
  let items :=
    layout.left.map (fun (c, out) => Item.mk (.column left.name c) (some out))
      ++ layout.right.map fun (c, out) => Item.mk (.column rightName c) (some out)
  let on := (leftOn.zip rightOn).map fun (l, r) =>
    (Expr.column left.name l, Expr.column rightName r)
  .ofInput items
    (.join left.name how right.name (if selfJoin then some rightName else none) on)

/-- The `SELECT` of an aggregation. -/
def aggregateSelect (input : Node) (func : AggFunc) (keys columns : List String) : Select :=
  let keyExprs := keys.map fun k => Expr.column input.name k
  let items :=
    keyExprs.map (fun e => Item.mk e none)
      ++ columns.map fun c => Item.mk (.aggregate func (.column input.name c)) (some c)
  ⟨false, items, some (.table input.name), none, keyExprs, keyExprs.map fun e => ⟨e, none⟩, none⟩

/-- A node's own query, over its sources by name. -/
def compound (g : Graph) (id : NodeId) : Except PlanError Compound := do
  let n ← g.node id
  let overTable (table : NodeId) (items : Node → Except PlanError (List Item)) :
      Except PlanError Select := do
    let t ← g.node table
    pure (.ofInput (← items t) (.table t.name))
  match n.op with
  | .source | .describe _ | .apply _ _ _ | .groupBy _ _ | .groupProjection _ _ _ _ =>
    throw (.invariant (.noStatement n.name n.op.kind))
  | .constant v => pure [⟨false, [⟨.literal v, some n.columnName⟩], none, none, [], [], none⟩]
  | .criterion owner _ | .arithmetic owner _ =>
    pure [← overTable owner fun _ => do pure [⟨← g.expression id, some n.columnName⟩]]
  | .projection table columns distinct =>
    let s ← overTable table fun t => pure (columnItems t.name columns)
    pure [{ s with distinct := distinct }]
  | .selection table criterion =>
    let s ← overTable table fun t => pure (allItems t)
    pure [{ s with condition? := some (← g.expression criterion) }]
  | .join left right leftOn rightOn how layout =>
    pure [joinSelect (← g.node left) (← g.node right) leftOn rightOn how layout]
  | .union inputs =>
    inputs.mapM fun i => overTable i fun t => pure (columnItems t.name n.columns)
  | .orderBy table keys =>
    let t ← g.node table
    let order := keys.map fun (k, ascending) => SortKey.mk (.column t.name k) (some ascending)
    pure [{ Select.ofInput (allItems t) (.table t.name) with orderBy := order }]
  | .limit table k =>
    let s ← overTable table fun t => pure (allItems t)
    pure [{ s with limit? := some k }]
  | .aggregator _ func input keys columns =>
    pure [aggregateSelect (← g.node input) func keys columns]
  | .rename table mapping => pure [← overTable table fun t => pure (renameItems t mapping)]
  | .assign table column value =>
    pure [← overTable table fun t => do pure (assignItems t column (← g.expression value))]

/-- The named result of an ancestor, if it needs one: groupings and tables that exist do not. -/
def namedResult (g : Graph) (view : View) (id : NodeId) :
    Except PlanError (Option (String × Compound)) := do
  let n ← g.node id
  if n.op.isContainer || view.relational id then pure none
  else if !n.op.hasStatement then throw (.invariant (.notLoaded n.name n.op.kind))
  else pure (some (n.name, ← g.compound id))

/-- The whole query of a node, with the ancestors that have no table as named results. -/
def query (g : Graph) (id : NodeId) (view : View) : Except PlanError Query := do
  let order ← g.dependencyOrder id .relational view
  let named ← order.mapM (g.namedResult view)
  pure ⟨named.filterMap (fun r => r), ← g.compound id⟩

end Graph
end LazyQuery
