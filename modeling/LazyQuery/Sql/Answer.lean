import LazyQuery.Sql.Layout

/-!
# Answers to queries

`Query.eval?` is the result of a query over the relations in reach. As long as all rows can be had, it
is what the query says as it is written (`Query.evalAsWritten?`): its named results are evaluated one
after the other, each over those before it.

Otherwise it hangs on the layout what is computed. The columns of a named result are all computed
only if it remains by itself; if it is merged into its reader, those that the reader asks for are.
Where it is plain that no rows are wanted, none are read.

Of the relations in reach, a query has to do with those that it names only.
-/

set_option autoImplicit false

namespace LazyQuery.Sql

/-- The relations of some names. -/
def Catalog.only (catalog : Catalog) (names : List String) : Catalog :=
  { catalog with relation? := fun n => if n ∈ names then catalog n else none }

/-- The columns of the relations in reach, without their rows. -/
def Catalog.headingsOnly (catalog : Catalog) : Catalog :=
  { catalog with relation? := fun n => (catalog n).map Relation.headingsOnly }

/-- Is anything in the expression compared with a pattern that is too long? -/
def Expr.hasLongPattern : Expr → Bool
  | literal _ | column _ _ | bare _ | rowid => false
  | compare _ l r | arith _ l r | and l r | or l r => l.hasLongPattern || r.hasLongPattern
  | like e p => longestPattern < p.utf8ByteSize || e.hasLongPattern
  | isNull e | not e | neg e | bitNot e | asReal e | aggregate _ e => e.hasLongPattern

/-- The expressions of a `SELECT`, but for the columns that tables are joined on. -/
def Select.exprs (s : Select) : List Expr :=
  s.items.map (·.expr) ++ s.condition?.toList ++ s.groupBy ++ s.orderBy.map (·.expr)

namespace Query

/-- The names that the parts of a query read. -/
def sourceNames (q : Query) : List String :=
  q.named.flatMap (fun n => n.2.names) ++ Compound.names q.body

/-- The compounds of a query. -/
def compounds (q : Query) : List Compound := q.named.map (·.2) ++ [q.body]

/-- Is anything in the query compared with a pattern that is too long? -/
def hasLongPattern (q : Query) : Bool :=
  q.compounds.any fun c => c.any fun s => s.exprs.any Expr.hasLongPattern

/-- The result of a query as it is written, if all rows of it and of its named results can be had. -/
def evalAsWritten? (catalog : Catalog) (q : Query) : Option Relation := do
  let catalog ← withNamed? catalog (fun _ => true) (fun _ before => before) q.named
  let r ← evalCompound? catalog true q.body
  let breaksOff (name : String) : Bool := (catalog name).any (·.breaksOff)
  if r.breaksOff || q.named.any (fun n => breaksOff n.1) then none else some r

/-- The columns of the relations in reach and of the named results. -/
def headings? (catalog : Catalog) (q : Query) : Option Catalog :=
  withNamed? catalog.headingsOnly (fun _ => false) (fun _ before => before) q.named

/-- The result of a query by its layout, the columns of all relations being given. -/
def evalByLayout? (catalog headings : Catalog) (layout : Layout) (q : Query) : Option Relation := do
  let isRead (name : String) : Bool := layout.read.any (sameName name)
  let unlessIdle (isIdle : Bool) (before : Catalog) : Catalog := if isIdle then headings else before
  let source (name : String) : Catalog → Catalog := unlessIdle (layout.idle.any (sameName name))
  let catalog ← withNamed? catalog isRead source layout.named
  let r ← evalCompound? (unlessIdle layout.isIdle catalog) true q.body
  if r.breaksOff then none else some r

/-- The result of a query, if all its rows can be read. Where nothing is compared with a pattern that
is too long, all rows can be had unless evaluation as written shows the contrary. -/
def eval? (catalog : Catalog) (q : Query) : Option Relation := do
  let catalog := catalog.only q.sourceNames
  let headings ← q.headings? catalog
  let layout ← q.layout? headings
  let written := if q.hasLongPattern then none else q.evalAsWritten? catalog
  written <|> q.evalByLayout? catalog headings layout

end Query
end LazyQuery.Sql
