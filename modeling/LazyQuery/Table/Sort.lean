import LazyQuery.Table.Basic
import LazyQuery.Scalar.Order

/-!
# Sorting tables

A stable sort of whole rows, by several columns, each ascending or descending. Null comes first in
ascending and last in descending order.

Where a float straddles two integers in a column that is sorted by, the order is no total preorder. What a
sort does then is left open: it may yield any arrangement of the rows, or none. This one merges sorted parts all
the same.
-/

set_option autoImplicit false

namespace LazyQuery.Table

/-- The order of two rows by the given columns; `true` means ascending. -/
def compareRows (keys : List (Column × Bool)) (i j : Nat) : Ordering :=
  match keys with
  | [] => .eq
  | (c, ascending) :: rest =>
    let o := Scalar.compare (c.values.getD i .null) (c.values.getD j .null)
    match if ascending then o else o.swap with
    | .eq => compareRows rest i j
    | o => o

/-- The rows sorted by the given columns, if these put the rows in a total preorder; else some arrangement of
them, where another sort may give up. A table without rows is left alone, whatever the keys. -/
def sortBy (t : Table) (keys : List (String × Bool)) : Except PlanError Table := do
  if t.rowCount = 0 then return t
  let columns ← t.keyColumns (keys.map (·.1))
  let order := compareRows (columns.zip (keys.map (·.2)))
  pure (t.take ((List.range t.rowCount).mergeSort fun i j => order i j != .gt))

end LazyQuery.Table
