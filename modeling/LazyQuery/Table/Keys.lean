import LazyQuery.Table.Basic
import LazyQuery.Scalar.Key

/-!
# Rows by key

The keys of a table's rows over some of its columns, and what is read off a list of keys: the row
numbers of each class of equal keys, and the numbers of the first rows of the classes.
-/

set_option autoImplicit false

namespace LazyQuery

namespace Table

/-- The cells of row number `i` in the given columns. -/
def cells (columns : List Column) (i : Nat) : List Scalar :=
  columns.map fun c => c.values.getD i .null

/-- The key of each row. Null is a value like any other. -/
def rowDigests (t : Table) (keys : List String) : Except PlanError (List Key) := do
  let columns ← t.keyColumns keys
  pure ((List.range t.rowCount).map fun i => Scalar.keyOf (cells columns i))

/-- The key of each row for matching: a row with a null among its key cells has none. -/
def rowKeys (t : Table) (keys : List String) : Except PlanError (List (Option Key)) := do
  let columns ← t.keyColumns keys
  pure ((List.range t.rowCount).map fun i =>
    let row := cells columns i
    if row.any Scalar.isNull then none else some (Scalar.keyOf row))

end Table

/-- The positions of the keys that differ from all keys before them and from those already seen. -/
def firstPositions (seen : List Key) (i : Nat) : List Key → List Nat
  | [] => []
  | k :: rest =>
    if k ∈ seen then firstPositions seen (i + 1) rest
    else i :: firstPositions (k :: seen) (i + 1) rest

/-- The positions of a key. -/
def positionsOf (keys : List Key) (k : Key) : List Nat :=
  (keys.zipIdx.filter fun (k', _) => k' == k).map (·.2)

/-- The positions of each class of equal keys, classes by first appearance. -/
def classes (keys : List Key) : List (List Nat) :=
  (firstPositions [] 0 keys).map fun i => positionsOf keys (keys.getD i [])

end LazyQuery
