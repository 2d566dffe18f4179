import LazyQuery.Sql.Answer
import LazyQuery.Sql.Definition
import LazyQuery.Sql.Limits
import LazyQuery.Store.Listing

/-!
# Databases

The statements of a database drop, create and fill tables and read them through queries. A refused
statement has no result and changes nothing.
-/

set_option autoImplicit false

namespace LazyQuery

open Sql

namespace Database

/-- A table as queries see it, beside a listing. -/
def relationWith? (db : Database) (listing : Relation) (name : String) : Option Relation :=
  if listingNames.any (sameName name) then some listing
  else if emptyListingNames.any (sameName name) then some (.ofTable listingColumns [] [])
  else
    match db.table? name with
    | some t => some t.relation
    | none => db.builtIn? name

/-- A table as queries see it. -/
def relation? (db : Database) (name : String) : Option Relation := db.relationWith? db.listing name

/-- What is in reach of a query, beside a listing. -/
def catalogWith (db : Database) (listing : Relation) (q : Query) : Catalog :=
  ⟨db.relationWith? listing, db.plans q, none⟩

/-- What is in reach of a query. -/
def catalog (db : Database) (q : Query) : Catalog := db.catalogWith db.listing q

/-! ## Statements -/

/-- Names that the database keeps for itself. -/
def isReserved (name : String) : Bool :=
  "sqlite_".toList.isPrefixOf (Like.folded name)

/-- Does a name repeat an earlier one? -/
def repeatsName : List String → Bool
  | [] => false
  | n :: rest => rest.any (sameName n) || repeatsName rest

/-- Does some name hold a zero character, at which a statement ends? -/
def cutsOff (names : List String) : Bool :=
  names.any fun n => n.toList.contains '\x00'

/-- The database without a table, whose page is free again. -/
def dropTable (db : Database) (name : String) : Database :=
  { db with
    tables := db.tables.filter fun t => !sameName t.name name
    revisions := db.revisions + 1
    freePages := db.freePages ++ (db.table? name).toList.map fun t => t.entry.page }

/-- A page for a new table, with what is left. Of free pages the one given back first is used last,
and the others from the smallest on. The first page of a file belongs to the database itself. -/
def takePage (db : Database) : Nat × Database :=
  match db.freePages with
  | [] =>
    let page := max db.pages 1 + 1
    (page, { db with pages := page })
  | [page] => (page, { db with freePages := [] })
  | kept :: first :: rest =>
    let page := rest.foldl min first
    (page, { db with freePages := kept :: (first :: rest).erase page })

/-- The database with one more table, which is empty. -/
def addTable (db : Database) (name : String) (columns : List (String × Affinity))
    (definition : String) : Database :=
  let number := db.nextNumber
  let (page, db) := db.takePage
  { db with
    tables := db.tables ++ [⟨name, columns, [], ⟨number, page, definition⟩⟩]
    revisions := db.revisions + 1 }

/-- A table with rows added at its end. -/
def insertRows (db : Database) (name : String) (rows : List (List Datum)) : Database :=
  { db with
    tables := db.tables.map fun t => if sameName t.name name then t.insertRows rows else t }

/-- Can a table of a name be created? -/
def isFree (db : Database) (name : String) : Bool :=
  !isReserved name && !isBuiltIn name && !cutsOff [name] && (db.table? name).isNone

/-- An empty table with declared columns. -/
def createTable? (db : Database) (name : String) (s : Schema) : Option Database :=
  if s.fields.isEmpty || columnRoom < s.fields.length || repeatsName s.names || cutsOff s.names
      || !db.isFree name then none
  else
    some (db.addTable name (s.fields.map fun f => (f.name, declaredAffinity f.type))
      (createTableText name s))

/-- The result of a query. -/
def query? (db : Database) (q : Query) : Option Relation :=
  if q.isAccepted 0 then q.eval? (db.catalog q) else none

/-- Does a query read nothing but tables of the database and results that it has named before? -/
def knowsSources (db : Database) (q : Query) : Bool :=
  readsOnly (fun name => (db.relation? name).isSome) q.named q.body

/-- A table with the result of a query. A column without affinity is one declared without a type. -/
def createTableAs? (db : Database) (name : String) (q : Query) : Option Database := do
  if !q.isAccepted Query.belowCreateTable || !db.isFree name then none
  let r := (← q.eval? (db.catalogWith db.listingWithPending q)).asTable (db.plans q)
  let columns := r.columns.map fun h => (h.name, if h.affinity = .none then .blob else h.affinity)
  pure ((db.addTable name columns (resultDefinition name columns)).insertRows name r.rows)

/-- The number of columns of a table. -/
def width? (db : Database) (name : String) : Option Nat :=
  (db.table? name).map (·.columns.length)

/-- The number of rows of a table. -/
def rowCount? (db : Database) (name : String) : Option Nat :=
  (db.relation? name).map (·.rows.length)

end Database
end LazyQuery
