import LazyQuery.Store.Disk

/-!
# The relational store

A `Store` is a connection to one database file at a time. Moving to another file or closing raises
its *generation*, by which it can be told whether a table was made on the present connection.
Counters record the work done: tables created from queries, tables loaded from memory, rows read.

Operations change the disk and the store, also when they fail: `StoreM` keeps both.
-/

set_option autoImplicit false

namespace LazyQuery

open Sql

/-- Counters of the work done. -/
structure StoreCounters where
  tablesCreated : Nat
  tablesLoaded : Nat
  rowsRead : Nat
  deriving DecidableEq, Inhabited

/-- A connection to a database file. -/
structure Store where
  /-- The database that is open, if one is. -/
  connection : Option DatabaseId
  path : DiskPath
  /-- Was the file made by the store itself, so that it goes with the connection? -/
  owned : Bool
  generation : Nat
  counters : StoreCounters
  deriving Inhabited

/-- A store and the disk it works on. -/
structure Mounted where
  disk : Disk
  store : Store
  deriving Inhabited

/-- An operation of the store. -/
abbrev StoreM := EStateM StoreError Mounted

namespace Store

/-- A new store on a file, or on a file of its own. -/
def openAt (disk : Disk) (path : Option DiskPath) : Except StoreError Mounted :=
  let (place, owned, disk) :=
    match path with
    | some p => (p, false, disk)
    | none =>
      let (p, disk) := disk.temporary
      (p, true, disk)
  match disk.open? place with
  | some (id, disk) => pure ⟨disk, ⟨some id, place, owned, 0, ⟨0, 0, 0⟩⟩⟩
  | none => throw .statement

/-- The open database. -/
def connected : StoreM DatabaseId := do
  match (← get).store.connection with
  | some id => pure id
  | none => throw .closed

/-- The open database, to be read. -/
def reading : StoreM Database := do
  let id ← connected
  pure ((← get).disk.database id)

/-- Is the file of the open database no longer at its place? -/
def isMoved (m : Mounted) : Bool := m.disk.lookup m.store.path != m.store.connection

/-- Change the open database, or fail if the change is refused. A database cannot be changed once
its file has gone, or if the name of its file is too long. -/
def change (f : Database → Option Database) : StoreM Unit := do
  let id ← connected
  let m ← get
  let db := m.disk.database id
  match f db with
  | none => throw .statement
  | some db' =>
    if isMoved m || !m.store.path.takesChanges then throw .statement
    set { m with disk := m.disk.write id db' }

/-- Adjust the counters. -/
def count (f : StoreCounters → StoreCounters) : StoreM Unit :=
  modify fun m => { m with store := { m.store with counters := f m.store.counters } }

/-- Drop a table, if there is one. -/
def dropTable (name : String) : StoreM Unit := do
  let db ← reading
  if Database.cutsOff [name] then throw .statement
  if (db.table? name).isSome then change fun db => some (db.dropTable name)

/-- Create a table from a query, in the place of any table of its name. -/
def createTableAs (name : String) (q : Query) : StoreM Unit := do
  let _ ← connected
  dropTable name
  unless (← reading).knowsSources q do throw .unknownTable
  change fun db => db.createTableAs? name q
  count fun c => { c with tablesCreated := c.tablesCreated + 1 }

/-- Load a table with the column types of a schema, in the place of any table of its name. If only
the rows are refused, the new table stays, without rows. -/
def bulkLoad (name : String) (t : Table) (s : Schema) : StoreM Unit := do
  let _ ← connected
  dropTable name
  change fun db => db.createTable? name s
  if (← reading).width? name != some t.columns.length then throw .statement
  if 0 < t.rowCount then
    change fun db => some (db.insertRows name (t.rows.map fun r => r.map Datum.ofScalar))
  count fun c => { c with tablesLoaded := c.tablesLoaded + 1 }

/-- The result of a query. -/
def query (q : Query) : StoreM Table := do
  let db ← reading
  match db.query? q with
  | none => throw .statement
  | some r =>
    match Table.ofColumns r.toColumns with
    | .ok t => pure t
    | .error e => throw (.plan (.construction e))

/-- Some columns of a table in the order its rows were inserted, counted as read. -/
def readTable (name : String) (columns : List String) : StoreM Table := do
  let t ← query (.readAll name columns)
  count fun c => { c with rowsRead := c.rowsRead + t.rowCount }
  pure t

/-- The number of rows of a table. -/
def rowCount (name : String) : StoreM Nat := do
  let db ← reading
  match db.rowCount? name with
  | some n => pure n
  | none => throw .statement

/-- Does the open database take any space? -/
def hasStorage : StoreM Bool := do
  pure (← reading).isUsed

/-- Let go of the connection and, if asked to, of its file. -/
def release (delete : Bool) : StoreM Unit :=
  modify fun m =>
    { disk := if delete then m.disk.delete m.store.path else m.disk
      store := { m.store with connection := none } }

/-- Move to another file. The old file goes if it is asked for, or if it is the store's own. A file
that cannot be opened leaves everything as it was. -/
def setPath (path : DiskPath) (deleteOld : Bool) : StoreM Unit := do
  let m ← get
  match m.disk.open? path with
  | none => throw .statement
  | some (id, disk) =>
    set { m with disk := disk }
    release (deleteOld || m.store.owned)
    modify fun m =>
      { m with
        store :=
          { m.store with
            connection := some id
            path := path
            owned := false
            generation := m.store.generation + 1 } }

/-- Close the connection. A file of the store's own goes with it, another one if asked for. -/
def close (delete : Bool) : StoreM Unit := do
  release (delete || (← get).store.owned)
  modify fun m =>
    { m with store := { m.store with owned := false, generation := m.store.generation + 1 } }

end Store
end LazyQuery
