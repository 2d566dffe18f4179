import LazyQuery.Table.Reshape
import LazyQuery.Memory.Footprint

/-!
# Results

What a computation yields: a table, or, for the aggregation of a whole table, its single row as a
labelled series or as one value. `Result.collapse` makes the row of a one-row table such a result,
and `Result.toTable` gives the table view of any result.
-/

set_option autoImplicit false

namespace LazyQuery

open scoped Numbers

/-- The result of a computation. -/
inductive Result
  | table (t : Table)
  | series (entries : List (String × Scalar))
  | scalar (v : Scalar)
  deriving DecidableEq, Inhabited

namespace Result

/-- The row of a one-row table as a value or a series; any other table is a result as it is. -/
def collapse (t : Table) : Result :=
  if t.rowCount ≠ 1 then table t
  else
    match t.columns with
    | [c] => scalar (c.values.getLastD .null)
    | cs => series (cs.map fun c => (c.name, c.values.getLastD .null))

/-- The result as a table; a single value gets the first of the given names. -/
def toTable (r : Result) (columns : List String) : Except FrameError Table :=
  match r with
  | table t => pure t
  | series entries => Table.build (entries.map fun (name, v) => ⟨name, [v]⟩)
  | scalar v =>
    match columns with
    | [] => throw (.schema .unnamedScalar)
    | name :: _ => Table.build [⟨name, [v]⟩]

/-- The number of rows of the result. -/
def rowCount : Result → Nat
  | table t => t.rowCount
  | series _ | scalar _ => 1

/-- The bytes the result counts for. -/
def bytes : Result → Nat
  | table t => t.bytes
  | series entries => (entries.map fun (name, v) => name.utf8ByteSize + v.bytes).sum
  | scalar v => v.bytes

/-- The bytes the result counts for, as a word. -/
def footprint (r : Result) : UInt64 := UInt64.ofNat r.bytes

end Result
end LazyQuery
