import LazyQuery.Sql.Query

/-!
# Limits of statements

The store refuses a statement that is too large for it.

* It reads a statement with a stack of what is still open. `Expr.depth`, `Select.depth` and
  `Query.depth` are the most entries that reading puts on the stack; there is room for `stackRoom`.
* The numbers of result columns, of terms to sort or group by, of joined pairs and of parts of a
  compound are bounded, and there is at least one result column.

`Query.isAccepted` is the rule for what can be told from the statement alone. A statement ends at a
zero character, so one that holds such a character is refused as incomplete.
-/

set_option autoImplicit false

namespace LazyQuery.Sql

open scoped Numbers

/-! ## Depth -/

/-- The entries for which the stack has room. -/
def stackRoom : Nat := 99

/-- The entries of a literal: a sign is read on its own. -/
def literalDepth (v : Scalar) : Nat :=
  if (literal v).toList.head? = some '-' then 2 else 1

/-- The entries in front of the argument of an aggregate: for each call its name, the parenthesis
and the place of a `DISTINCT`, and one for a parenthesis around the argument. -/
def aggregateDepth : AggFunc → Nat
  | .count | .mean | .min | .max | .prod => 3
  | .sum => 6
  | .any | .all => 7

namespace Expr

/-- The most entries that an expression puts on the stack. While the right operand of a binary
expression is read, the parenthesis, the left operand and the operator lie below it. -/
def depth : Expr → Nat
  | literal v => literalDepth v
  | column _ _ => 3
  | bare _ | rowid => 1
  | compare _ l r | arith _ l r | and l r | or l r => max (1 + l.depth) (3 + r.depth)
  | like e _ | isNull e => max (1 + e.depth) 4
  | not e | neg e | bitNot e => 2 + e.depth
  | asReal e => max (2 + e.depth) 6
  | aggregate func e => aggregateDepth func + e.depth

end Expr

/-- The greatest of some numbers. -/
def greatest (ns : List Nat) : Nat := ns.foldl max 0

/-- The most entries that a `SELECT` puts on the stack. Four lie below a result column and five
below a condition; the other clauses hold plain columns and need fewer than any limit. -/
def Select.depth (s : Select) : Nat :=
  max (greatest (s.items.map fun i => 4 + max i.expr.depth 4))
    (s.condition?.elim 0 fun c => 5 + c.depth)

/-- The most entries that a compound puts on the stack. What is read already and the `UNION ALL` lie
below all parts but the first. -/
def compoundDepth : Compound → Nat
  | [] => 0
  | first :: rest => max first.depth (greatest (rest.map fun s => 2 + s.depth))

/-- The most entries that a query puts on the stack. Five lie below the first named result, seven
below each further one, and two below the body that follows them. -/
def Query.depth (q : Query) : Nat :=
  match q.named with
  | [] => compoundDepth q.body
  | first :: rest =>
    greatest [5 + compoundDepth first.2, greatest (rest.map fun n => 7 + compoundDepth n.2),
      2 + compoundDepth q.body]

/-! ## Numbers -/

/-- The length in bytes of the longest pattern that is compared. A longer one is refused once it is
compared with anything. -/
def longestPattern : Nat := 50000

/-- The number of rows that a limit can state: a larger one is no integer. -/
def largestLimit : Nat := 2 ^ 63 - 1

/-- The most columns of a table or result, and the most terms to sort or group by. -/
def columnRoom : Nat := 2000

/-- The most parts of a compound. -/
def compoundRoom : Nat := 500

/-- The most pairs of columns that a join compares. -/
def joinRoom : Nat := 998

/-- Has a `SELECT` a result column, and is it not too wide? -/
def Select.hasFitWidth (s : Select) : Bool :=
  !s.items.isEmpty && s.items.length ≤ columnRoom && s.groupBy.length ≤ columnRoom
    && s.orderBy.length ≤ columnRoom
    && match s.input? with
      | some (.join _ _ _ _ on) => on.length ≤ joinRoom
      | _ => true

/-- Is a compound neither too long nor too wide or too narrow? -/
def isFitCompound (c : Compound) : Bool :=
  c.length ≤ compoundRoom && c.all Select.hasFitWidth

namespace Query

/-- Can a query be read that stands after so many entries on the stack? -/
def isAccepted (q : Query) (below : Nat) : Bool :=
  !q.render.toList.contains '\x00' && below + q.depth ≤ stackRoom
    && q.named.all (fun n => isFitCompound n.2) && isFitCompound q.body

/-- The entries below the query of a `CREATE TABLE`. -/
def belowCreateTable : Nat := 2

end Query
end LazyQuery.Sql
