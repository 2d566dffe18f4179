import LazyQuery.Table.Keys
import LazyQuery.Schema.Join

/-!
# Joins in memory

An equi-join of two tables. The rows come in left order, the matches of one left row in right order.
A null among the key cells matches nothing; a left join keeps a left row without a match, with null
in the right columns.
-/

set_option autoImplicit false

namespace LazyQuery.Table

/-- Row numbers by key, each key standing once. -/
abbrev KeyIndex := List (Key × List Nat)

namespace KeyIndex

/-- One more row of a key, after those that it has. -/
def insert (k : Key) (i : Nat) : KeyIndex → KeyIndex
  | [] => [(k, [i])]
  | (k', rows) :: rest =>
    if k' = k then (k', rows ++ [i]) :: rest else (k', rows) :: insert k i rest

/-- The rows of each key, in order. A row without a key is left out. -/
def ofKeys (keys : List (Option Key)) : KeyIndex :=
  keys.zipIdx.foldl (fun index (k, i) => k.elim index (index.insert · i)) []

end KeyIndex

/-- The pairs of left and right row numbers that a join yields: the right rows are collected by key,
and each left row is looked up among them. -/
def joinPairs (how : JoinType) (leftKeys rightKeys : List (Option Key)) : List (Nat × Option Nat) :=
  let index := KeyIndex.ofKeys rightKeys
  leftKeys.zipIdx.flatMap fun (k, i) =>
    match k.bind fun k => index.lookup k with
    | some js => js.map fun j => (i, some j)
    | none => if how = .left then [(i, none)] else []

/-- The cell of an optional row; null without a row. -/
def optionalCell (c : Column) : Option Nat → Scalar
  | some j => c.values.getD j .null
  | none => .null

/-- The join of two tables on paired keys, laid out as given. -/
def join (left right : Table) (leftOn rightOn : List String) (how : JoinType)
    (layout : JoinLayout) : Except FrameError Table := do
  if leftOn.length != rightOn.length || leftOn.isEmpty then
    throw (.schema (.unpairedJoinKeys leftOn.length rightOn.length))
  let leftKeys ← left.rowKeys leftOn
  let rightKeys ← right.rowKeys rightOn
  let pairs := joinPairs how leftKeys rightKeys
  let leftOut ← layout.left.mapM fun (source, out) =>
    match left.column? source with
    | some c => pure (Column.mk out (pairs.map fun p => c.values.getD p.1 .null))
    | none => throw (FrameError.schema (.missingLeftColumn source))
  let rightOut ← layout.right.mapM fun (source, out) =>
    match right.column? source with
    | some c => pure (Column.mk out (pairs.map fun p => optionalCell c p.2))
    | none => throw (FrameError.schema (.missingRightColumn source))
  (ofColumns (leftOut ++ rightOut)).mapError fun e => .plan (.construction e)

end LazyQuery.Table
