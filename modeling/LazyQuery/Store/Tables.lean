import LazyQuery.Sql.Eval
import LazyQuery.Table.Basic

/-!
# Stored tables

A `StoredTable` has columns with affinities, rows of stored values, and an entry in the listing of
its database. A `Database` is some tables in a file that is made of pages.
-/

set_option autoImplicit false

namespace LazyQuery

open Sql

/-- What the listing of a database says of a table. -/
structure ListingEntry where
  /-- The number of the row in the listing. -/
  number : Nat
  /-- The page on which the table begins. -/
  page : Nat
  definition : String
  deriving Inhabited

/-- A table of stored values. -/
structure StoredTable where
  name : String
  columns : List (String × Affinity)
  rows : List (List Datum)
  entry : ListingEntry
  deriving Inhabited

namespace StoredTable

/-- The table as queries see it. Rows are never taken out one by one, so they are numbered from one
in the order they came in. -/
def relation (t : StoredTable) : Relation :=
  .numbered t.columns t.rows

/-- A row as the table keeps it. -/
def keptRow (t : StoredTable) (row : List Datum) : List Datum :=
  List.zipWith (fun (c : String × Affinity) v => c.2.keep v) t.columns row

/-- The table with rows added at its end. -/
def insertRows (t : StoredTable) (rows : List (List Datum)) : StoredTable :=
  { t with rows := t.rows ++ rows.map t.keptRow }

end StoredTable

/-- Named tables in a file that is made of pages. -/
structure Database where
  tables : List StoredTable
  /-- The pages of the file. Space that was used once stays with the database. -/
  pages : Nat
  /-- The pages given back by tables that were dropped. -/
  freePages : List Nat
  /-- How often a table came or went. -/
  revisions : Nat
  /-- The plans by which queries are carried out. -/
  plans : Query → Plan
  deriving Inhabited

namespace Database

/-- A database in which nothing has been written, with plans for its queries. -/
def new (plans : Query → Plan) : Database := ⟨[], 0, [], 0, plans⟩

/-- A database in which nothing has been written. -/
def empty : Database := new fun _ => .nestedLoop

/-- Has anything ever been written? -/
def isUsed (db : Database) : Bool := 0 < db.pages

/-- The table of a name. -/
def table? (db : Database) (name : String) : Option StoredTable :=
  db.tables.find? fun t => sameName t.name name

end Database

/-- A result as a table of cells. -/
def Sql.Relation.toColumns (r : Relation) : List Column :=
  r.columns.zipIdx.map fun (h, i) =>
    ⟨h.name, r.rows.map fun row => ((row[i]?).getD .null).toScalar⟩

end LazyQuery
