import LazyQuery.Sql.Eval

/-!
# Merging nested queries

A query that reads a named result is evaluated together with it where that is possible: the tables
of the named result then stand in the `FROM` clause of its reader, and its columns are computed
there. A `Block` is a `SELECT` while this is done to it.

* `Block.admits` says whether a named result can be merged into a block in the place of one of its
  sources, and `Block.absorb` does it.
* `Block.mergeAll` merges as long as it is possible. A block that reads a union becomes several.
* `Block.conditionsOn` are the conditions that a block has on one of its sources alone, and
  `Block.isIdle` says that some condition holds in no row. A column that a condition sets equal to a
  value counts as that value in the other conditions.

A source is optional if it is the right side of a left join. It ceases to be so once a condition
does not hold for the row of nulls that would stand for it.
-/

set_option autoImplicit false

namespace LazyQuery.Sql

/-- The most tables of a `FROM` clause. -/
def tableRoom : Nat := 64

namespace Expr

/-- The expression with another one for each column that is named with its table. -/
def mapColumns (f : String → String → Expr) : Expr → Expr
  | column t c => f t c
  | compare op l r => compare op (l.mapColumns f) (r.mapColumns f)
  | arith op l r => arith op (l.mapColumns f) (r.mapColumns f)
  | and l r => and (l.mapColumns f) (r.mapColumns f)
  | or l r => or (l.mapColumns f) (r.mapColumns f)
  | not e => not (e.mapColumns f)
  | like e p => like (e.mapColumns f) p
  | isNull e => isNull (e.mapColumns f)
  | asReal e => asReal (e.mapColumns f)
  | neg e => neg (e.mapColumns f)
  | bitNot e => bitNot (e.mapColumns f)
  | aggregate func e => aggregate func (e.mapColumns f)
  | literal v => literal v
  | bare c => bare c
  | rowid => rowid

/-- Does the expression call a function? Patterns and aggregates do. -/
def callsFunction : Expr → Bool
  | like _ _ | aggregate _ _ => true
  | compare _ l r | arith _ l r | and l r | or l r => l.callsFunction || r.callsFunction
  | not e | isNull e | asReal e | neg e | bitNot e => e.callsFunction
  | literal _ | column _ _ | bare _ | rowid => false

/-- Is the expression an aggregate whose value can hang on the order of rows? -/
def needsOrder : Expr → Bool
  | aggregate func _ => func = .sum || func = .mean || func = .prod
  | _ => false

/-- Are all columns of an expression, which is not to be an aggregate, such that they pass a test?
-/
def allColumns (test : String → String → Bool) : Expr → Bool
  | column t c => test t c
  | compare _ l r | arith _ l r | and l r | or l r => l.allColumns test && r.allColumns test
  | not e | like e _ | isNull e | asReal e | neg e | bitNot e => e.allColumns test
  | literal _ => true
  | bare _ | rowid | aggregate _ _ => false

/-- Is the expression one of literals alone? -/
def isClosed (e : Expr) : Bool := e.allColumns fun _ _ => false

/-- Is it plain from its form that an expression is not true where a source is a row of nulls? Of a
conjunction that must hold (`isRequired`) one side is enough. -/
def rejectsNulls (source : String) : Bool → Expr → Bool
  | _, column t _ => t == source
  | isRequired, and l r =>
    if isRequired then l.rejectsNulls source true || r.rejectsNulls source true
    else l.rejectsNulls source true && r.rejectsNulls source true
  | _, or l r => l.rejectsNulls source true && r.rejectsNulls source true
  | _, compare _ l r | _, arith _ l r =>
    l.rejectsNulls source false || r.rejectsNulls source false
  | _, not e | _, asReal e | _, neg e | _, bitNot e => e.rejectsNulls source false
  | _, literal _ | _, bare _ | _, rowid | _, like _ _ | _, isNull _ | _, aggregate _ _ => false

end Expr

/-! ## Blocks -/

/-- What a block reads. -/
structure Source where
  /-- The name that columns are looked up with, unlike that of any other source of the block. -/
  label : String
  /-- The name of a table or of a named result. -/
  name : String
  isOptional : Bool

/-- A condition of a block. Of an optional source it says what the source is joined on. -/
structure Requirement where
  expr : Expr
  joins? : Option String

/-- A `SELECT` that named results are being merged into. -/
structure Block where
  sources : List Source
  items : List Expr
  requirements : List Requirement
  isDistinct : Bool
  isGrouped : Bool
  /-- Does a result column call a function? -/
  callsFunction : Bool
  /-- Is there an aggregate for which the order of rows counts? -/
  needsOrder : Bool
  isSorted : Bool
  /-- Is it sorted by result columns only? -/
  isSortedByItems : Bool
  isLimited : Bool
  /-- Is it a part of a union? -/
  isPart : Bool

/-- What is known of the relations that a query names. -/
structure Reach where
  /-- The named results. -/
  named : List (String × Compound)
  /-- All relations, of which only the columns count. -/
  headings : Catalog

namespace Reach

/-- The named result of a name. -/
def compound? (reach : Reach) (name : String) : Option Compound :=
  (reach.named.find? fun n => sameName n.1 name).map (·.2)

/-- The position of a column in a relation. -/
def columnIndex? (reach : Reach) (name column : String) : Option Nat :=
  (reach.headings name).bind fun r => r.columns.findIdx? fun h => sameName h.name column

/-- The affinity of a column of a relation. -/
def affinity? (reach : Reach) (name column : String) : Option Affinity := do
  let r ← reach.headings name
  let h ← r.columns.find? fun h => sameName h.name column
  pure h.affinity

/-- Do the parts of a compound agree on the affinities of their columns? -/
def agrees (reach : Reach) (c : Compound) : Bool :=
  let affinities := c.map fun s =>
    (s.eval? reach.headings false).map fun r => r.columns.map (·.affinity)
  affinities.all (· == affinities.headD none)

end Reach

namespace Block

/-- The block of a `SELECT`. Its sources are labelled by their positions. -/
def ofSelect (s : Select) (isPart : Bool) : Block :=
  let first := "0"
  let second := "1"
  let label (t : String) : String :=
    match s.input? with
    | some (.join left _ _ _ _) => if sameName t left then first else second
    | _ => first
  let labelled (e : Expr) : Expr := e.mapColumns fun t c => .column (label t) c
  let sources : List Source :=
    match s.input? with
    | some (.table name) => [⟨first, name, false⟩]
    | some (.join left how right _ _) => [⟨first, left, false⟩, ⟨second, right, how = .left⟩]
    | none => []
  let joined : List Requirement :=
    match s.input? with
    | some (.join _ how _ _ on) =>
      on.map fun (l, r) =>
        ⟨.compare .eq (labelled l) (labelled r), if how = .left then some second else none⟩
    | _ => []
  let items := s.items.map fun i => labelled i.expr
  { sources := sources
    items := items
    requirements := joined ++ (s.condition?.map fun c => Requirement.mk (labelled c) none).toList
    isDistinct := s.distinct
    isGrouped := s.isGrouped
    callsFunction := items.any Expr.callsFunction
    needsOrder := items.any Expr.needsOrder
    isSorted := !s.orderBy.isEmpty
    isSortedByItems := s.orderBy.all fun k => items.contains (labelled k.expr)
    isLimited := s.limit?.isSome
    isPart := isPart }

/-- The blocks of a compound. -/
def ofCompound (c : Compound) : List Block := c.map fun s => ofSelect s (1 < c.length)

/-- The block with no source optional that must have a row. -/
def withoutIdleOptions (b : Block) : Block :=
  let mustHaveRow (source : Source) : Bool :=
    b.requirements.any fun r => r.joins?.isNone && r.expr.rejectsNulls source.label true
  match b.sources.find? fun source => source.isOptional && mustHaveRow source with
  | none => b
  | some found =>
    { b with
      sources := b.sources.map fun s =>
        if s.label == found.label then { s with isOptional := false } else s
      requirements := b.requirements.map fun r =>
        if r.joins? == some found.label then { r with joins? := none } else r }

/-- Does a nested query keep its order when it is read by the block? Where another order or a join
follows it is dropped, unless it decides what a limit keeps or an aggregate yields. -/
def keepsOrderOf (b nested : Block) : Bool :=
  nested.isSorted
    && !((b.isSorted || 1 < b.sources.length) && !nested.isLimited && !b.needsOrder)

/-- Can a nested query of one part be merged into the block in the place of its source at a
position? -/
def admitsSingle (b : Block) (i : Nat) (source : Source) (nested : Block) : Bool :=
  let sorted := b.keepsOrderOf nested
  let isAlone := b.sources.length == 1
  let isLeading := i == 0 && (isAlone || (b.sources[1]?).any (·.isOptional))
  !nested.isGrouped && !nested.isDistinct && !nested.sources.isEmpty
    && !(sorted && (b.isSorted || b.isGrouped || (b.callsFunction && isLeading)))
    && !(nested.isLimited && (b.isLimited || b.isPart || !isAlone || b.isGrouped || b.isDistinct
      || !b.requirements.isEmpty))
    && !(source.isOptional && (1 < nested.sources.length || b.isGrouped || b.isDistinct))

/-- Can a nested union be merged into the block in the place of a source? -/
def admitsUnion (b : Block) (source : Source) (parts : List Block) : Bool :=
  !b.isGrouped && !b.isDistinct && !source.isOptional && (!b.isSorted || b.isSortedByItems)
    && parts.all fun p => !p.isGrouped && !p.isDistinct && !p.sources.isEmpty

/-- The block with a nested query merged into it in the place of a source. -/
def absorb (b : Block) (reach : Reach) (source : Source) (nested : Block) : Block :=
  let inner (label : String) : String := source.label ++ "." ++ label
  let relabelled (e : Expr) : Expr := e.mapColumns fun t c => .column (inner t) c
  let place := (nested.sources.head?.map fun s => inner s.label).getD source.label
  let substituted (e : Expr) : Expr := e.mapColumns fun t c =>
    if t == source.label then
      match (reach.columnIndex? source.name c).bind (nested.items[·]?) with
      | some item => relabelled item
      | none => .column t c
    else .column t c
  let sources := nested.sources.zipIdx.map fun (s, k) =>
    Source.mk (inner s.label) s.name (if k == 0 then source.isOptional else s.isOptional)
  let innerRequirements := nested.requirements.map fun r =>
    Requirement.mk (relabelled r.expr)
      (if source.isOptional then some place else r.joins?.map inner)
  let outerRequirements := b.requirements.map fun r =>
    Requirement.mk (substituted r.expr)
      (if r.joins? == some source.label then some place else r.joins?)
  let sorted := b.keepsOrderOf nested
  { b with
    sources := b.sources.flatMap fun s => if s.label == source.label then sources else [s]
    items := b.items.map substituted
    requirements := innerRequirements ++ outerRequirements
    isSorted := b.isSorted || sorted
    isSortedByItems := b.isSortedByItems && !sorted
    isLimited := b.isLimited || nested.isLimited
    isPart := b.isPart || nested.isPart }

/-- The blocks that one merger makes of a block, if one is possible. -/
def merge? (b : Block) (reach : Reach) : Option (List Block) :=
  b.sources.zipIdx.findSome? fun (source, i) =>
    (reach.compound? source.name).bind fun c =>
      match ofCompound c with
      | [nested] =>
        if b.admitsSingle i source nested then some [b.absorb reach source nested] else none
      | parts =>
        if b.admitsUnion source parts && reach.agrees c then
          let part := { b with isLimited := b.isLimited && !b.isSorted, isSortedByItems := true }
          some (parts.map fun p => part.absorb reach source p)
        else none

/-- The blocks that are left when nothing more can be merged, or when a block is too large. The fuel
bounds the mergers. -/
def mergeAll (reach : Reach) : Nat → Block → List Block
  | 0, b => [b]
  | fuel + 1, b =>
    if tableRoom < b.sources.length then [b]
    else
      let b := b.sources.foldl (fun b _ => b.withoutIdleOptions) b
      match b.merge? reach with
      | some blocks => blocks.flatMap (mergeAll reach fuel)
      | none => [b]

/-! ## What conditions say by their form -/

/-- The conditions that hold in every row of the block. -/
def conjuncts (b : Block) : List Expr :=
  (b.requirements.filter fun r => r.joins?.isNone).flatMap fun r => r.expr.conjuncts

/-- The columns that conditions set equal to a value, with the condition and the value as the column
keeps it. -/
def fixed (b : Block) (reach : Reach) : List (Expr × Expr × Expr) :=
  let affinity? (label column : String) : Option Affinity := do
    let source ← b.sources.find? fun s => s.label == label
    let a ← reach.affinity? source.name column
    if a = .blob || a = .none then none else some a
  b.conjuncts.filterMap fun condition => do
    let (column, value) ←
      match condition with
      | .compare .eq (.column t c) e => some ((t, c), e)
      | .compare .eq e (.column t c) => some ((t, c), e)
      | _ => none
    let a ← affinity? column.1 column.2
    if value.isClosed then
      some (condition, .column column.1 column.2, .literal (a.keep (value.eval [] [])).toScalar)
    else none

/-- The conditions of the block, columns that are set equal to a value being replaced by it. -/
def settled (b : Block) (reach : Reach) : List Expr :=
  let fixed := b.fixed reach
  b.conjuncts.map fun e =>
    if fixed.any fun f => f.1 = e then e
    else e.mapColumns fun t c =>
      ((fixed.find? fun f => f.2.1 = .column t c).map (·.2.2)).getD (.column t c)

/-- Is it plain that the block has no rows? -/
def isIdle (b : Block) (reach : Reach) : Bool :=
  (b.settled reach).any fun e => e.isClosed && (e.eval [] []).truth? != some true

/-- The conditions that the block has on one source alone. Of an optional source they are among
those that it is joined on. -/
def conditionsOn (b : Block) (reach : Reach) (source : Source) : List Expr :=
  let conditions :=
    if source.isOptional then
      let joining := b.requirements.filter fun r => r.joins? == some source.label
      joining.flatMap fun r => r.expr.conjuncts
    else b.settled reach
  conditions.filter fun e => e.allColumns fun t _ => t == source.label

end Block

end LazyQuery.Sql
