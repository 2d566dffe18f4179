import LazyQuery.Sql.Query

/-!
# Expected numbers of rows

The store chooses the order in which it reads the two sides of a join by the rows that it expects of
them. It expects the same of every table. Of a result that it computes beforehand it expects what
the form of the query tells: one row of an aggregate, some of a grouping, no more than its limit of
a limited one.

Expectations are logarithms: ten stands for a factor of two.
-/

set_option autoImplicit false

namespace LazyQuery.Sql.Expected

open scoped Numbers

/-- Ten times the logarithm of a number, in the steps that the store takes: three bits after the
leading one count. -/
def ofNat (n : Nat) : Nat :=
  if n < 2 then 0
  else
    let steps := #[0, 2, 3, 5, 6, 7, 8, 9]
    let size := n.log2
    10 * size + steps.getD (n * 8 / 2 ^ size % 8) 0

/-- The rows of a table. -/
def table : Nat := 200

/-- The rows of a grouping are at most so many. -/
def mostGroups : Nat := 66

/-- What leaving out repetitions takes away. -/
def repetition : Nat := 30

/-- What joining with one more table adds. -/
def join : Nat := 43

/-- A result with no more rows than this is read before a table. -/
def few : Nat := 30

/-- What is expected of a `SELECT`, from what is expected of its input. -/
def ofSelect (s : Select) (isGrouped : Bool) (input : Nat) : Nat :=
  let grouped := if !isGrouped then input else if s.groupBy.isEmpty then 0 else min mostGroups input
  let distinct := if s.distinct then grouped - repetition else grouped
  match s.limit? with
  | some n => if 0 < n ∧ n < 2 ^ 63 then min (ofNat n) distinct else distinct
  | none => distinct

/-- Is the right side of a join read first? What is expected of a side is known if it is computed
beforehand. -/
def isRightFirst (how : JoinType) (left right : Option Nat) : Bool :=
  how = .inner &&
    match left, right with
    | none, none => false
    | none, some r => r ≤ few
    | some l, none => few < l
    | some l, some r => r < l

end LazyQuery.Sql.Expected
