import LazyQuery.Sql.Block

/-!
# The layout of a query

What is left of the named results of a query once all that can be merged is merged. `Query.layout?`
says which of them remain by themselves, and refuses a query in which some `FROM` clause holds more
than `tableRoom` tables in the end.

A condition on a result that remains by itself is handed down to it, so that rows are left out
before they are grouped or compared. That is done if the result is read in one place only and has no
limit, and of a grouping with conditions on its keys. It changes no answer, but it can spare a
computation that would fail.
-/

set_option autoImplicit false

namespace LazyQuery.Sql

/-- The names that an input reads. -/
def Input.names : Input → List String
  | .table name => [name]
  | .join left _ right _ _ => [left, right]

/-- The names that a compound reads, as often as it reads them. -/
def Compound.names (c : Compound) : List String :=
  c.flatMap fun s => s.input?.elim [] Input.names

/-- Do named results and the compound after them read known names only? A result is known to what
comes after it. -/
def readsOnly (isKnown : String → Bool) : List (String × Compound) → Compound → Bool
  | [], body => body.names.all isKnown
  | (name, c) :: rest, body =>
    c.names.all isKnown && readsOnly (fun n => sameName n name || isKnown n) rest body

namespace Select

/-- A condition on the columns of a `SELECT`, as one on what it reads. -/
def resolve (s : Select) (position : String → Option Nat) (e : Expr) : Expr :=
  e.mapColumns fun t c => ((position c).bind (s.items[·]?)).elim (.column t c) Item.expr

/-- The `SELECT` with conditions on its columns handed down to it. -/
def narrowed (s : Select) (position : String → Option Nat) (conditions : List Expr) : Select :=
  let isOverKeys (e : Expr) : Bool := e.allColumns fun t c => s.groupBy.contains (.column t c)
  let inner := conditions.map (s.resolve position)
  let usable :=
    if s.isGrouped then inner.filter fun e => !s.groupBy.isEmpty && isOverKeys e else inner
  { s with
    condition? := usable.foldl (fun c? e => some (c?.elim e fun c => .and c e)) s.condition? }

end Select

/-- A condition on the columns of a named result. -/
structure Handed where
  name : String
  condition : Expr
  deriving DecidableEq

/-- What is left of a query. -/
structure Layout where
  /-- The named results, with the conditions that are handed down to them. -/
  named : List (String × Compound)
  /-- The names that are read. -/
  read : List String
  /-- The named results of which it is plain that they read no rows. -/
  idle : List String
  /-- Is that plain of the query itself? -/
  isIdle : Bool
  /-- The conditions to be handed down. -/
  handed : List Handed

namespace Query

/-- The names that a query reads, a name that is read more than once being in the list more than
once. -/
def reads (q : Query) : List String :=
  q.named.reverse.foldl (fun names (name, c) =>
    let times := names.countP (sameName name)
    names ++ (List.replicate (min times 2) c.names).flatten) (Compound.names q.body)

/-- Can conditions be handed down to a named result? -/
def takesConditions (q : Query) (name : String) : Bool :=
  q.reads.countP (sameName name) == 1
    && (q.named.find? fun n => sameName n.1 name).any fun n => n.2.all fun s => s.limit?.isNone

/-- The conditions that blocks hand down. All blocks that read a result must agree on them. -/
def handedBy (q : Query) (reach : Reach) (blocks : List Block) : List Handed :=
  let handed (b : Block) : List (String × List Handed) :=
    b.sources.map fun source =>
      (source.name, (b.conditionsOn reach source).map fun e =>
        ⟨source.name, e.mapColumns fun _ c => .column source.name c⟩)
  let all := blocks.flatMap handed
  (all.flatMap (·.2)).filter fun h =>
    q.takesConditions h.name && all.all fun (name, hs) => !sameName name h.name || hs.contains h

/-- The blocks of a compound once everything is merged, if no `FROM` clause is too long. -/
def blocks? (q : Query) (reach : Reach) (c : Compound) : Option (List Block) :=
  let fuel := (tableRoom + 1) * (q.named.length + 2)
  let blocks := (Block.ofCompound c).flatMap (Block.mergeAll reach fuel)
  if blocks.all fun b => b.sources.length ≤ tableRoom then some blocks else none

/-- What is left of a query. -/
def layout? (q : Query) (headings : Catalog) : Option Layout := do
  let reach : Reach := ⟨q.named, headings⟩
  let withBlocks (l : Layout) (blocks : List Block) : Layout :=
    { l with
      read := l.read ++ blocks.flatMap fun b => b.sources.map (·.name)
      handed := l.handed ++ q.handedBy reach blocks }
  let body ← q.blocks? reach q.body
  let outer := withBlocks ⟨[], [], [], body.all fun b => b.isIdle reach, []⟩ body
  q.named.reverse.foldlM (fun l (name, c) =>
    if l.read.any (sameName name) then do
      let conditions := (l.handed.filter fun h => sameName h.name name).map (·.condition)
      let narrowed (s : Select) : Select := s.narrowed (reach.columnIndex? name) conditions
      let blocks ← q.blocks? reach (c.map fun s => if s.isGrouped then s else narrowed s)
      let idle := if blocks.all fun b => b.isIdle reach then [name] else []
      let named := (name, c.map narrowed) :: l.named
      pure (withBlocks { l with named := named, idle := idle ++ l.idle } blocks)
    else pure { l with named := (name, c) :: l.named }) outer

end Query
end LazyQuery.Sql
