import LazyQuery.Sql.Expected
import LazyQuery.Sql.Limits
import LazyQuery.Sql.Sum
import LazyQuery.Text.Like

/-!
# The meaning of queries

A query is evaluated over named relations. A `Relation` has columns with affinities and rows of
stored values. The rows of a table have numbers too, and where a query reads that table alone, the
number is one more column, called `rowid`, `oid` or `_rowid_` unless a column has that name.

Rows are asked for one after the other, and some cannot be had: a limit that is no integer, an
aggregate that is undefined, a pattern that is too long. A `Delivery` is what can be had before that
happens. Whoever asks for no more never learns of it.

* `Expr.eval` is the value of an expression in a row.
* `Select.eval?` filters, groups, projects, removes repetitions, sorts and cuts off, in that order.
* `evalCompound?` takes the rows of its parts one part after the other.
* `withNamed?` evaluates the named results of a query.

There is no result at all if a table or column is named that does not exist. Names are compared
without regard to the case of ASCII letters.

Some things a query leaves open, and the store settles them by a `Plan` of its own: the order in which
the rows of a join come, and some names of columns.
-/

set_option autoImplicit false

namespace LazyQuery.Sql

/-- Are two names equal, ASCII letters in either case being the same? -/
def sameName (a b : String) : Bool := Like.folded a == Like.folded b

/-! ## Deliveries -/

/-- Rows that are read one after the other. -/
structure Delivery (α : Type) where
  rows : List α
  /-- Can it not be read on after the rows? -/
  breaksOff : Bool
  deriving Inhabited

namespace Delivery

variable {α β : Type}

/-- The delivery that breaks off at once. -/
def broken : Delivery α := ⟨[], true⟩

/-- All of the rows. -/
def ofRows (rows : List α) : Delivery α := ⟨rows, false⟩

/-- The rows that pass a test. -/
def filter (d : Delivery α) (test : α → Bool) : Delivery α := ⟨d.rows.filter test, d.breaksOff⟩

/-- Something made of each row, up to the first of which it cannot be made. -/
def filterMapWhile (d : Delivery α) (make : α → Option β) : Delivery β :=
  let made := d.rows.map make
  let front := made.takeWhile Option.isSome
  ⟨front.filterMap fun r => r, d.breaksOff || front.length < made.length⟩

/-- Something made of each row. -/
def map (d : Delivery α) (make : α → β) : Delivery β := ⟨d.rows.map make, d.breaksOff⟩

/-- What is made of all rows together, for which all must have been read. -/
def gather (d : Delivery α) (make : List α → List β) : Delivery β :=
  if d.breaksOff then broken else ofRows (make d.rows)

/-- The rows in another order. -/
def rearrange (d : Delivery α) (arrange : List α → List α) : Delivery α :=
  ⟨arrange d.rows, d.breaksOff⟩

/-- At most so many rows, with nothing read after them. -/
def take (d : Delivery α) (n : Nat) : Delivery α :=
  if n ≤ d.rows.length then ofRows (d.rows.take n) else d

/-- The rows of one delivery and then those of another. -/
def append (d e : Delivery α) : Delivery α :=
  if d.breaksOff then d else ⟨d.rows ++ e.rows, e.breaksOff⟩

/-- The delivery, if nothing is asked of its rows that is impossible for each of them. -/
def barring (d : Delivery α) (impossible : Bool) : Delivery α :=
  if impossible && !d.rows.isEmpty then broken else d

end Delivery

/-! ## Relations -/

/-- A column of a result. -/
structure Heading where
  name : String
  affinity : Affinity
  /-- Is it impossible to compute a value of the column? -/
  isRefused : Bool
  deriving Inhabited

/-- A table or a result: its columns and its rows. -/
structure Relation extends Delivery (List Datum) where
  columns : List Heading
  /-- The numbers of the rows, which only a table has. -/
  numbers? : Option (List Int64)
  /-- The expected number of rows, if they are computed beforehand. -/
  expected? : Option Nat
  deriving Inhabited

namespace Relation

/-- A table with numbered rows. -/
def ofTable (columns : List (String × Affinity)) (rows : List (List Datum)) (numbers : List Int64) :
    Relation :=
  ⟨.ofRows rows, columns.map fun (name, a) => ⟨name, a, false⟩, some numbers, none⟩

/-- A table whose rows are numbered from one. -/
def numbered (columns : List (String × Affinity)) (rows : List (List Datum)) : Relation :=
  ofTable columns rows ((List.range rows.length).map fun i => Int64.ofNat (i + 1))

/-- The relation without its rows. -/
def headingsOnly (r : Relation) : Relation :=
  ⟨.ofRows [], r.columns, r.numbers?.map fun _ => [], r.expected?⟩

/-- The rows, each with its number at the end if it has one. -/
def numberedRows (r : Relation) : Delivery (List Datum) :=
  match r.numbers? with
  | some numbers => ⟨List.zipWith (fun row n => row ++ [.integer n]) r.rows numbers, r.breaksOff⟩
  | none => r.toDelivery

end Relation

/-- A column in scope, with its table's name in the query. -/
structure Binding where
  table : String
  heading : Heading
  /-- Is it the number of the row? -/
  isNumber : Bool

/-- The columns in scope, in the order of a row's values. -/
abbrev Scope := List Binding

namespace Scope

/-- The columns of a relation under a table name. -/
def ofRelation (table : String) (r : Relation) : Scope :=
  r.columns.map fun h => ⟨table, h, false⟩

/-- The columns of a relation under a table name, and the number of its rows if they have one. -/
def ofNumbered (table : String) (r : Relation) : Scope :=
  ofRelation table r
    ++ if r.numbers?.isSome then [⟨table, ⟨"rowid", .integer, false⟩, true⟩] else []

/-- Is the name one that the number of a row answers to? -/
def isNumberName (name : String) : Bool :=
  sameName name "rowid" || sameName name "oid" || sameName name "_rowid_"

/-- The position of a column among those that pass a test. The number of the row comes after all
columns. -/
def indexWhere? (s : Scope) (test : Binding → Bool) (column : String) : Option Nat :=
  match s.findIdx? fun b => !b.isNumber && test b && sameName b.heading.name column with
  | some i => some i
  | none => if isNumberName column then s.findIdx? fun b => b.isNumber && test b else none

/-- The position of a column named with its table. -/
def index? (s : Scope) (table column : String) : Option Nat :=
  s.indexWhere? (fun b => sameName b.table table) column

/-- The position of a column named without its table. -/
def bareIndex? (s : Scope) (column : String) : Option Nat :=
  s.indexWhere? (fun _ => true) column

/-- The affinity of the column at a position. -/
def affinityAt (s : Scope) (i : Nat) : Affinity :=
  match s[i]? with
  | some b => b.heading.affinity
  | none => .none

/-- Is it impossible to compute a value of the column at a position? -/
def isRefusedAt (s : Scope) (i : Nat) : Bool := s[i]?.any fun b => b.heading.isRefused

end Scope

namespace Expr

/-- Do all columns named with their tables exist? A name without a table can stand for itself as a
text. -/
def wellScoped (s : Scope) : Expr → Bool
  | column t c => (s.index? t c).isSome
  | compare _ l r | arith _ l r | and l r | or l r => l.wellScoped s && r.wellScoped s
  | not e | like e _ | isNull e | asReal e | neg e | bitNot e | aggregate _ e => e.wellScoped s
  | rowid => (s.bareIndex? "rowid").isSome
  | literal _ | bare _ => true

/-- The affinity of an expression: a column's own, and none for what is computed. -/
def affinity (s : Scope) : Expr → Affinity
  | column t c => ((s.index? t c).map s.affinityAt).getD .none
  | bare c => ((s.bareIndex? c).map s.affinityAt).getD .none
  | rowid => ((s.bareIndex? "rowid").map s.affinityAt).getD .none
  | asReal _ => .real
  | _ => .none

/-- Is it impossible to compute the expression? It is if it compares anything with a pattern that is
too long. -/
def isRefused (s : Scope) : Expr → Bool
  | literal _ | rowid => false
  | column t c => (s.index? t c).any s.isRefusedAt
  | bare c => (s.bareIndex? c).any s.isRefusedAt
  | compare _ l r | arith _ l r | and l r | or l r => l.isRefused s || r.isRefused s
  | like e p => longestPattern < p.utf8ByteSize || e.isRefused s
  | isNull e | not e | neg e | bitNot e | asReal e | aggregate _ e => e.isRefused s

/-- An arithmetic operator on stored values. -/
def applyNumOp (op : NumOp) (x y : Datum) : Datum :=
  let a := x.toNumber
  let b := y.toNumber
  if a.isNull || b.isNull then .null
  else
    let exactOr (exact : Int64 → Int64 → Option Int64) (inexact : Float → Float → Float) : Datum :=
      match a, b with
      | .integer i, .integer j =>
        match exact i j with
        | some k => .integer k
        | none => Datum.ofFloat (inexact (floatOfInt i) (floatOfInt j))
      | a, b => Datum.ofFloat (inexact a.toFloat b.toFloat)
    match op with
    | .add => exactOr Word.add? (· + ·)
    | .sub => exactOr Word.sub? (· - ·)
    | .mul => exactOr Word.mul? (· * ·)
    | .div =>
      if b.toFloat == 0.0 then .null
      else exactOr (fun i j => Word.fit? (i.toInt.tdiv j.toInt)) (· / ·)
    | .rem =>
      match a, b with
      | .integer i, .integer j => if j = 0 then .null else .integer (Word.remainder i j)
      | _, _ =>
        if y.toInt = 0 then .null else .real (floatOfInt (Word.remainder x.toInt y.toInt))
    | .bitAnd => .integer (x.toInt &&& y.toInt)
    | .bitOr => .integer (x.toInt ||| y.toInt)

/-- A comparison of stored values with the affinities of their expressions. -/
def applyCompare (op : CompareOp) (a : Affinity) (x : Datum) (b : Affinity) (y : Datum) : Datum :=
  if x.isNull || y.isNull then .null
  else
    let (x, y) := comparable a x b y
    Datum.ofBool (op.holds (x.compare y))

/-- The conjunction of two truth values that can be missing. -/
def conjunction : Option Bool → Option Bool → Option Bool
  | some false, _ | _, some false => some false
  | some true, some true => some true
  | _, _ => none

/-- The disjunction of two truth values that can be missing. -/
def disjunction : Option Bool → Option Bool → Option Bool
  | some true, _ | _, some true => some true
  | some false, some false => some false
  | _, _ => none

/-- A text as patterns see it, up to a zero character. -/
def patternText (s : String) : String := String.ofList (s.toList.takeWhile (· ≠ '\x00'))

/-- The value of an expression in a row. A name in quotes that no column has is a text. An aggregate
has no value in a row. -/
def eval (s : Scope) (row : List Datum) : Expr → Datum
  | literal v => Datum.ofLiteral v
  | column t c => ((s.index? t c).bind (row[·]?)).getD .null
  | bare c =>
    match s.bareIndex? c with
    | some i => row.getD i .null
    | none => .text c
  | rowid => ((s.bareIndex? "rowid").bind (row[·]?)).getD .null
  | compare op l r => applyCompare op (l.affinity s) (l.eval s row) (r.affinity s) (r.eval s row)
  | arith op l r => applyNumOp op (l.eval s row) (r.eval s row)
  | and l r => Datum.ofTruth (conjunction (l.eval s row).truth? (r.eval s row).truth?)
  | or l r => Datum.ofTruth (disjunction (l.eval s row).truth? (r.eval s row).truth?)
  | not e => Datum.ofTruth ((e.eval s row).truth?.map (!·))
  | like e p =>
    match e.eval s row with
    | .null => .null
    | v => Datum.ofBool (Like.covers p (patternText v.toText))
  | isNull e => Datum.ofBool (e.eval s row).isNull
  | asReal e =>
    match e.eval s row with
    | .null => .null
    | v => Datum.ofFloat v.toFloat
  | neg e => applyNumOp .sub (.integer 0) (e.eval s row)
  | bitNot e =>
    match e.eval s row with
    | .null => .null
    | v => .integer (~~~v.toInt)
  | aggregate _ _ => .null

/-- The conditions that must all hold for a condition to hold. -/
def conjuncts : Expr → List Expr
  | and l r => l.conjuncts ++ r.conjuncts
  | e => [e]

/-- Does a condition hold in a row? -/
def holds (s : Scope) (row : List Datum) (e : Expr) : Bool :=
  (e.eval s row).truth? == some true

/-- The first of the extreme values, `worse` being the order in which a value gives way. -/
def extreme (worse : Ordering) : List Datum → Datum
  | [] => .null
  | v :: rest => rest.foldl (fun m v => if m.compare v == worse then v else m) v

/-- A value, or a default for null. -/
def coalesce (v : Datum) (default : Datum) : Datum := if v.isNull then default else v

/-- The aggregate of an expression over rows. -/
def evalAggregate? (s : Scope) (rows : List (List Datum)) (func : AggFunc) (e : Expr) :
    Option Datum :=
  let values (e : Expr) : List Datum :=
    (rows.map fun row => e.eval s row).filter fun v => !v.isNull
  let nonzero : Expr := .compare .ne e (.literal (.int 0))
  match func with
  | .count => some (.integer (Int64.ofNat (values e).length))
  | .sum => RunningSum.sum? (values e)
  | .mean => some (RunningSum.mean (values e))
  | .min => some (extreme .gt (values e))
  | .max => some (extreme .lt (values e))
  | .prod => (RunningProduct.product? (values e)).map Datum.returned
  | .any => some (coalesce (extreme .lt (values nonzero)) (.integer 0))
  | .all => some (coalesce (extreme .gt (values nonzero)) (.integer 1))

/-- The value of an expression for a group of rows: an aggregate over them, or the value in the
first. -/
def evalGroup? (s : Scope) (rows : List (List Datum)) (e : Expr) : Option Datum :=
  match e with
  | aggregate func e => e.evalAggregate? s rows func
  | e =>
    match rows with
    | row :: _ => some (e.eval s row)
    | [] => some .null

end Expr

/-- The name of a result column: the given one, a column's own, or the text of the expression. -/
def Item.resultName (s : Scope) (i : Item) : String :=
  let columnName (index : Option Nat) : String :=
    match index.bind (s[·]?) with
    | some b => b.heading.name
    | none => i.expr.render
  match i.name?, i.expr with
  | some n, _ => n
  | none, .column t c => columnName (s.index? t c)
  | none, .bare c => columnName (s.bareIndex? c)
  | none, e => e.render

/-! ## Plans -/

/-- What a query leaves open, as the store settles it when it carries the query out. -/
structure Plan where
  /-- The rows of a join in the order in which they come, in a named result or in the query's own. It
  hangs on the query which side is read first, and in what order the rows of the other are found. -/
  arrange : Option String → Input → List (List Datum) → List (List Datum)
  arrange_perm : ∀ place i rows, (arrange place i rows).Perm rows
  /-- The number that is drawn at random for the name of a column, given the names taken, when those
  from one to four have been tried in vain. -/
  draw : List String → Nat

/-- The plan by which each row on the left is joined in turn, with the rows on the right in their
order. -/
def Plan.nestedLoop : Plan where
  arrange := fun _ _ rows => rows
  arrange_perm := fun _ _ rows => .refl rows
  draw := fun taken => taken.length + 5

instance : Inhabited Plan := ⟨.nestedLoop⟩

/-- The relations in reach of a query, by name, and the plan by which it is carried out. -/
structure Catalog where
  relation? : String → Option Relation
  plan : Plan
  /-- The named result that is computed, if it is one. -/
  place : Option String

instance : CoeFun Catalog fun _ => String → Option Relation := ⟨Catalog.relation?⟩

namespace Input

/-- The rows of two relations joined, each row on the left with those on the right that match it. The
rows of one side are read when there is one on the other side to join them with. -/
def joinRows (how : JoinType) (l r : Relation) (isMatch : List Datum → List Datum → Bool) :
    Delivery (List Datum) :=
  let (first, second) :=
    if Expected.isRightFirst how l.expected? r.expected? then (r, l) else (l, r)
  if second.breaksOff && !first.rows.isEmpty then .broken
  else
    let padding : List Datum := List.replicate r.columns.length .null
    let joined (a : List Datum) : List (List Datum) :=
      match r.rows.filter (isMatch a) with
      | [] => if how = .left then [a ++ padding] else []
      | bs => bs.map (a ++ ·)
    ⟨l.rows.flatMap joined, first.breaksOff⟩

/-- The expected number of rows of an input that is computed beforehand. -/
def expected? (catalog : Catalog) : Input → Option Nat
  | table name => (catalog name).bind (·.expected?)
  | join _ _ _ _ _ => none

/-- The expected number of rows of an input. -/
def expected (catalog : Catalog) (i : Input) : Nat :=
  let ofName (name : String) : Nat := ((catalog name).bind (·.expected?)).getD Expected.table
  match i with
  | table name => ofName name
  | join left _ _ _ _ => ofName left + Expected.join

/-- The columns in scope and the rows of an input. -/
def eval? (catalog : Catalog) : Input → Option (Scope × Delivery (List Datum))
  | table name => do
    let r ← catalog name
    pure (Scope.ofNumbered name r, r.numberedRows)
  | i@(join left how right rename? on) => do
    let l ← catalog left
    let r ← catalog right
    let scope := Scope.ofRelation left l ++ Scope.ofRelation (rename?.getD right) r
    if !on.all fun (a, b) => a.wellScoped scope && b.wellScoped scope then none
    else
      let isMatch (a b : List Datum) : Bool :=
        on.all fun (x, y) => (Expr.compare .eq x y).holds scope (a ++ b)
      pure (scope, (joinRows how l r isMatch).rearrange (catalog.plan.arrange catalog.place i))

end Input

namespace Select

/-- Do all names of the query exist? -/
def wellFormed (s : Select) (scope : Scope) : Bool :=
  s.items.all (fun i => i.expr.wellScoped scope)
    && s.condition?.all (fun c => c.wellScoped scope)
    && s.groupBy.all (fun e => e.wellScoped scope)
    && s.orderBy.all (fun k => k.expr.wellScoped scope)

/-- Is there one row per group rather than one per row? -/
def isGrouped (s : Select) : Bool :=
  !s.groupBy.isEmpty || s.items.any fun i => i.expr.isAggregate

/-- The order of two lists of sort values under the directions of the keys. -/
def compareKeys : List SortKey → List Datum → List Datum → Ordering
  | k :: ks, a :: as, b :: bs =>
    let o := a.compare b
    match if k.ascending? == some false then o.swap else o with
    | .eq => compareKeys ks as bs
    | o => o
  | _, _, _ => .eq

/-- The groups of rows with equal keys, in the order of the keys; one group without keys. -/
def groups (s : Select) (scope : Scope) (rows : List (List Datum)) : List (List (List Datum)) :=
  if s.groupBy.isEmpty then [rows]
  else
    let keyed := rows.map fun row => (s.groupBy.map fun (e : Expr) => e.eval scope row, row)
    let firsts := keyed.foldl (fun found (k, _) =>
      if found.any (Datum.sameTuple k) then found else found ++ [k]) []
    let ascending := s.groupBy.map fun e => SortKey.mk e none
    (firsts.mergeSort fun a b => compareKeys ascending a b != .gt).map fun k =>
      (keyed.filter fun (k', _) => Datum.sameTuple k k').map (·.2)

/-- Are groups to be sorted as they come, by their keys in ascending order? -/
def isSortedByGroups (s : Select) : Bool :=
  s.isGrouped && s.orderBy.all (fun k => k.ascending? != some false)
    && s.orderBy.map (·.expr) == s.groupBy

/-- The rows without those that repeat an earlier one, each with what belongs to it. -/
def withoutRepeats {α : Type} (rows : List (List Datum × α)) : List (List Datum × α) :=
  rows.foldl (fun kept r =>
    if kept.any fun k => Datum.sameTuple k.1 r.1 then kept else kept ++ [r]) []

/-- The rows that a limit leaves. -/
def cutOff {α : Type} (s : Select) (rows : Delivery α) : Delivery α :=
  match s.limit? with
  | some n => if n ≤ largestLimit then rows.take n else .broken
  | none => rows

/-- Are the result columns computed for every row? They are if they are asked for, compared or
aggregated. -/
def computes (s : Select) (asked : Bool) : Bool := asked || s.distinct || s.isGrouped

/-- Is it impossible to do with a row what has to be done with each one that is kept? -/
def isRefused (s : Select) (scope : Scope) (asked : Bool) : Bool :=
  (s.computes asked && s.items.any fun i => i.expr.isRefused scope)
    || s.groupBy.any (fun e => e.isRefused scope)
    || s.orderBy.any fun k => k.expr.isRefused scope

/-- What a `SELECT` reads. Without an input that is one row without columns. -/
def reads? (s : Select) (catalog : Catalog) : Option (Scope × Delivery (List Datum)) :=
  match s.input? with
  | some i => i.eval? catalog
  | none => some ([], .ofRows [[]])

/-- The rows for which the condition holds. -/
def kept (s : Select) (scope : Scope) (input : Delivery (List Datum)) : Delivery (List Datum) :=
  let conditions := s.condition?.elim [] Expr.conjuncts
  conditions.foldl (fun (rows : Delivery (List Datum)) c =>
    (rows.barring (c.isRefused scope)).filter fun row => c.holds scope row) input

/-- The values of the result columns and of the sort keys for a group of rows. -/
def outputOf? (s : Select) (scope : Scope) (group : List (List Datum)) :
    Option (List Datum × List Datum) := do
  let cells ← s.items.mapM fun i => i.expr.evalGroup? scope group
  pure (cells, ← s.orderBy.mapM fun k => k.expr.evalGroup? scope group)

/-- The rows by the values of their sort keys. Rows that come in that order already are not sorted. -/
def sortRows (s : Select) (rows : List (List Datum × List Datum)) : List (List Datum × List Datum) :=
  let inOrder (a b : List Datum × List Datum) : Bool := compareKeys s.orderBy a.2 b.2 != .gt
  if rows.Pairwise fun a b => inOrder a b then rows else rows.mergeSort inOrder

/-- The rows of the result; `asked` says whether all its columns are computed. -/
def delivery (s : Select) (scope : Scope) (asked : Bool) (input : Delivery (List Datum)) :
    Delivery (List Datum) :=
  let possible := (s.kept scope input).barring (s.isRefused scope asked)
  let groups :=
    if s.isGrouped then possible.gather (s.groups scope) else possible.map fun row => [row]
  let out := groups.filterMapWhile (s.outputOf? scope)
  let distinct := if s.distinct then { out with rows := withoutRepeats out.rows } else out
  let sorted :=
    if s.orderBy.isEmpty || s.isSortedByGroups then distinct else distinct.gather s.sortRows
  (s.cutOff sorted).map (·.1)

/-- The heading of a result column. -/
def heading (s : Select) (scope : Scope) (asked : Bool) (i : Item) : Heading :=
  ⟨i.resultName scope, i.expr.affinity scope, !s.computes asked && i.expr.isRefused scope⟩

/-- The result of a `SELECT` over the relations in reach; `asked` says whether all its columns are
computed. -/
def eval? (catalog : Catalog) (asked : Bool) (s : Select) : Option Relation := do
  let (scope, input) ← s.reads? catalog
  if !s.wellFormed scope then none
  else
    let expected? :=
      if asked then
        some (Expected.ofSelect s s.isGrouped (s.input?.elim 0 fun i => i.expected catalog))
      else s.input?.bind fun i => i.expected? catalog
    pure ⟨s.delivery scope asked input, s.items.map (s.heading scope asked), none, expected?⟩

end Select

/-- The result of a compound, which has the names of its first part. -/
def evalCompound? (catalog : Catalog) (asked : Bool) (c : Compound) : Option Relation := do
  let parts ← c.mapM fun s => s.eval? catalog asked
  match parts with
  | [] => none
  | first :: rest =>
    if rest.all fun r => r.columns.length == first.columns.length then
      let columns := first.columns.zipIdx.map fun (h, i) =>
        let parts' := parts.filterMap fun r => r.columns[i]?
        Heading.mk h.name (Affinity.ofParts (parts'.map (·.affinity))) (parts'.any (·.isRefused))
      let expected? := if rest.isEmpty || asked then first.expected? else none
      let rows := rest.foldl (fun d r => d.append r.toDelivery) first.toDelivery
      pure ⟨rows, columns, none, expected?⟩
    else none

/-! ## Names of result columns -/

/-- The name without a counter at its end. -/
def withoutCounter (name : String) : List Char :=
  let cs := name.toList
  let digits := (cs.reverse.takeWhile Char.isDigit).length
  match cs.reverse.drop digits with
  | ':' :: front => front.reverse
  | _ => cs

/-- The name with a counter. -/
def counted (name : String) (count : Nat) : String :=
  String.ofList (withoutCounter name) ++ ":" ++ toString count

/-- The name, or if it is taken the name with a counter: the first of four that is not taken, or one
that is drawn. -/
def freshName (plan : Plan) (taken : List String) (name : String) : String :=
  let tried := name :: [1, 2, 3, 4].map (counted name)
  (tried.find? fun n => !taken.any (sameName n)).getD (counted name (plan.draw taken))

/-- The names that the columns of a result have as a table: a name that repeats an earlier one gets
a counter, and one that reads as a truth value is replaced by its position. -/
def tableNames (plan : Plan) : List String → Nat → List String → List String
  | _, _, [] => []
  | taken, i, n :: rest =>
    let plain := if sameName n "true" || sameName n "false" then "column" ++ toString (i + 1) else n
    let name := freshName plan taken plain
    name :: tableNames plan (taken ++ [name]) (i + 1) rest

/-- A result as a table that queries can name. -/
def Relation.asTable (plan : Plan) (r : Relation) : Relation :=
  let names := tableNames plan [] 0 (r.columns.map (·.name))
  { r with columns := List.zipWith (fun name h => { h with name := name }) names r.columns }

/-! ## Named results -/

/-- The relations in reach once one more is named. -/
def Catalog.extend (catalog : Catalog) (name : String) (r : Relation) : Catalog :=
  { catalog with relation? := fun n => if sameName n name then some r else catalog n }

/-- The relations in reach where a named result is computed. -/
def Catalog.within (catalog : Catalog) (name : String) : Catalog :=
  { catalog with place := some name }

/-- The relations in reach after some that are named. All columns are asked of those whose names
pass a test; `source` says from which relations a named one is computed, given those before it. -/
def withNamed? (catalog : Catalog) (asked : String → Bool) (source : String → Catalog → Catalog)
    (named : List (String × Compound)) : Option Catalog :=
  named.foldlM (fun cat (name, c) => do
    let r ← evalCompound? ((source name cat).within name) (asked name) c
    pure (cat.extend name (r.asTable cat.plan))) catalog

end LazyQuery.Sql
