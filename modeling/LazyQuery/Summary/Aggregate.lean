import LazyQuery.Table.Keys
import LazyQuery.Scalar.Order
import LazyQuery.Decimal.Word

/-!
# Aggregation

One value for a column (`aggregate`), one row for a table (`aggregateTable`), one row per group of
equal keys (`aggregateGroups`). Nulls are skipped. Without any value a sum is 0, a product 1, `any`
false, `all` true, and mean, minimum and maximum are null.

Sums and products stay integers as long as every value is one and the running result fits in 64
bits. After that they are floats; for a sum of integers alone this is refused instead.
-/

set_option autoImplicit false

namespace LazyQuery

/-- A running sum or product. -/
inductive Running
  | int (i : Int64)
  | float (x : Double)
  deriving DecidableEq

namespace Running

/-- The running result as a float. -/
def toDouble : Running → Double
  | int i => doubleOfInt i
  | float x => x

/-- The running result as a cell. -/
def toScalar : Running → Scalar
  | int i => .int i
  | float x => .float x

end Running

/-- A sum or product underway: the result so far, whether integers overflowed into floats, and
whether a float was met. -/
structure Fold where
  result : Running
  overflowed : Bool
  sawFloat : Bool

namespace Fold

/-- Take in one more value. -/
def step (exact : Int64 → Int64 → Option Int64) (inexact : Double → Double → Double) (f : Fold)
    (v : Scalar) : Except FrameError Fold :=
  match v.float? with
  | none => throw (.type (.nonNumericAggregate v))
  | some x =>
    pure <| match f.result, v.int? with
      | .int a, some b =>
        match exact a b with
        | some r => { f with result := .int r }
        | none =>
          { f with result := .float (inexact (doubleOfInt a) (doubleOfInt b)), overflowed := true }
      | r, i =>
        { f with result := .float (inexact r.toDouble x), sawFloat := f.sawFloat || i.isNone }

end Fold

namespace Aggregate

/-- The sum of values none of which is null. -/
def sum (values : List Scalar) : Except FrameError Scalar := do
  let f ← values.foldlM (Fold.step Word.add? (· + ·)) ⟨.int 0, false, false⟩
  if f.overflowed && !f.sawFloat then throw (.overflow "sum")
  pure f.result.toScalar

/-- The product of values none of which is null. -/
def prod (values : List Scalar) : Except FrameError Scalar := do
  let f ← values.foldlM (Fold.step Word.mul? (· * ·)) ⟨.int 1, false, false⟩
  pure f.result.toScalar

/-- The mean of values none of which is null. -/
def mean (values : List Scalar) : Except FrameError Scalar := do
  let total ← values.foldlM (fun (t : Double) v =>
    match v.float? with
    | none => throw (FrameError.type (.nonNumericAggregate v))
    | some x => pure (t + x)) (.ofFloat 0.0)
  pure (if values.isEmpty then .null else .float (total / .ofNat values.length))

/-- The first of the least values. -/
def min : List Scalar → Scalar
  | [] => .null
  | v :: rest => rest.foldl (fun m v => if Scalar.compare m v == .gt then v else m) v

/-- The last of the greatest values. -/
def max : List Scalar → Scalar
  | [] => .null
  | v :: rest => rest.foldl (fun m v => if Scalar.compare m v == .gt then m else v) v

end Aggregate

/-- The aggregate of a column. -/
def aggregate (func : AggFunc) (values : List Scalar) : Except FrameError Scalar :=
  let present := values.filter fun v => !v.isNull
  match func with
  | .count => pure (.int (Int64.ofNat present.length))
  | .sum => Aggregate.sum present
  | .prod => Aggregate.prod present
  | .mean => Aggregate.mean present
  | .min => pure (Aggregate.min present)
  | .max => pure (Aggregate.max present)
  | .any => pure (.bool (present.any fun v => v.truth? == some true))
  | .all => pure (.bool (present.all fun v => v.truth? != some false))

namespace Table

/-- A column that an operation in memory needs. -/
def need (t : Table) (name : String) : Except FrameError Column :=
  match t.column? name with
  | some c => pure c
  | none => throw (.schema (.missingColumn name))

/-- The aggregates of some columns as a table of one row. -/
def aggregateTable (t : Table) (func : AggFunc) (columns : List String) :
    Except FrameError Table := do
  let out ← columns.mapM fun name => do
    let c ← t.need name
    pure (Column.mk name [← aggregate func c.values])
  (Table.ofColumns out : Except ConstructionError Table).mapError fun e => .plan (.construction e)

/-- The row numbers of each group of equal keys, groups in the order of their first rows' cells. Like rows,
they are in some order where the key cells are in no total preorder, and another sort may give up. -/
def groups (t : Table) (keys : List String) : Except PlanError (List (List Nat)) := do
  let digests ← t.rowDigests keys
  let columns ← t.keyColumns keys
  let tuple (g : List Nat) : List Scalar := cells columns (g.headD 0)
  pure ((classes digests).mergeSort fun a b => Scalar.compareTuple (tuple a) (tuple b) != .gt)

/-- The aggregates of some columns within each group of equal keys, one row per group with the key
cells first. -/
def aggregateGroups (t : Table) (keys columns : List String) (func : AggFunc) :
    Except FrameError Table := do
  let gs ← t.groups keys
  let keyColumns ← t.keyColumns keys
  let keyOut := (keys.zip keyColumns).map fun (k, c) =>
    Column.mk k (gs.map fun g => c.values.getD (g.headD 0) .null)
  let out ← columns.mapM fun name => do
    let c ← t.need name
    let values ← gs.mapM fun g => aggregate func (g.map fun i => c.values.getD i .null)
    pure (Column.mk name values)
  (Table.ofColumns (keyOut ++ out)).mapError fun e => .plan (.construction e)

end Table
end LazyQuery
