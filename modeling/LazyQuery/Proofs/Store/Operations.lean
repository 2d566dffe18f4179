import LazyQuery.Store.Basic
import LazyQuery.Proofs.Outcome
import LazyQuery.Proofs.Store.Tables
import LazyQuery.Proofs.Table.Errors

/-!
# What operations of the store do

An operation that loads or creates a table does nothing to the disk but to the table of its name in
the open database, whether it ends in an answer or in an error. `Mounted.Writes` says this once.

The operations here are those that a computation consists of. For each, a lemma says how it ends.
That a table could be created says what it holds; that it could not says why.
-/

set_option autoImplicit false

namespace LazyQuery

open Sql

theorem Disk.database_write {d : Disk} {id : DatabaseId} (h : id < d.databases.size) (db : Database)
    (i : DatabaseId) : (d.write id db).database i = if i = id then db else d.database i := by
  simp only [Disk.database, Disk.write, Array.getElem?_setIfInBounds]
  by_cases hi : i = id
  · simp [hi, h]
  · simp [hi, Ne.symm hi]

namespace Mounted

variable {m m' m'' : Mounted} {name : String}

/-- The table of a name in the open database. -/
def table? (m : Mounted) (name : String) : Option StoredTable :=
  m.store.connection.bind fun c => (m.disk.database c).table? name

/-- Is the open database one of the disk? -/
def Valid (m : Mounted) : Prop := ∀ c, m.store.connection = some c → c < m.disk.databases.size

/-- Are changes of the open database refused? -/
def isReadOnly (m : Mounted) : Bool := Store.isMoved m || !m.store.path.takesChanges

/-- The disk and the store are as before, but for counters and for the table of a name in the open
database. -/
structure Writes (name : String) (m m' : Mounted) : Prop where
  store : ∃ counters, m'.store = { m.store with counters := counters }
  files : m'.disk.files = m.disk.files
  temporaries : m'.disk.temporaries = m.disk.temporaries
  size : m'.disk.databases.size = m.disk.databases.size
  elsewhere : ∀ d, m.store.connection ≠ some d → m'.disk.database d = m.disk.database d
  tables : ∀ c, m.store.connection = some c →
    Database.AgreesBut name (m.disk.database c) (m'.disk.database c)

theorem Writes.refl (name : String) (m : Mounted) : Writes name m m :=
  ⟨⟨_, rfl⟩, rfl, rfl, rfl, fun _ _ => rfl, fun _ _ => .refl _ _⟩

theorem Writes.connection (h : Writes name m m') : m'.store.connection = m.store.connection := by
  obtain ⟨counters, h⟩ := h.store
  rw [h]

theorem Writes.generation (h : Writes name m m') : m'.store.generation = m.store.generation := by
  obtain ⟨counters, h⟩ := h.store
  rw [h]

theorem Writes.trans (h : Writes name m m') (h' : Writes name m' m'') : Writes name m m'' where
  store := by
    obtain ⟨counters, hs⟩ := h.store
    obtain ⟨counters', hs'⟩ := h'.store
    exact ⟨counters', by rw [hs', hs]⟩
  files := h'.files.trans h.files
  temporaries := h'.temporaries.trans h.temporaries
  size := h'.size.trans h.size
  elsewhere d hd := (h'.elsewhere d (h.connection ▸ hd)).trans (h.elsewhere d hd)
  tables c hc := (h.tables c hc).trans (h'.tables c (h.connection ▸ hc))

theorem Writes.valid (h : Writes name m m') (hv : m.Valid) : m'.Valid := by
  intro c hc
  rw [h.size]
  exact hv c (h.connection ▸ hc)

theorem Writes.isReadOnly_eq (h : Writes name m m') : m'.isReadOnly = m.isReadOnly := by
  obtain ⟨counters, hs⟩ := h.store
  have files : m'.disk.databaseIn = m.disk.databaseIn := by
    funext file
    rw [Disk.databaseIn, Disk.databaseIn, h.files]
  simp [isReadOnly, Store.isMoved, Disk.lookup, hs, files]

/-- Tables of other names are where they were. -/
theorem Writes.table?_eq (h : Writes name m m') {n : String} (hn : sameName n name = false) :
    m'.table? n = m.table? n := by
  rw [table?, table?, h.connection]
  cases hc : m.store.connection with
  | none => rfl
  | some c => exact (h.tables c hc).table n hn

theorem table?_eq {c : DatabaseId} (h : m.store.connection = some c) (name : String) :
    m.table? name = (m.disk.database c).table? name := by
  rw [table?, h]
  rfl

/-- A change of the open database that leaves tables of other names alone. -/
theorem writes_write (hv : m.Valid) {c : DatabaseId} (hc : m.store.connection = some c)
    {db : Database} (h : Database.AgreesBut name (m.disk.database c) db) :
    Writes name m { m with disk := m.disk.write c db } where
  store := ⟨_, rfl⟩
  files := rfl
  temporaries := rfl
  size := by simp [Disk.write]
  elsewhere d hd := by
    rw [Disk.database_write (hv c hc), if_neg]
    rintro rfl
    exact hd hc
  tables c' hc' := by
    rw [hc, Option.some.injEq] at hc'
    subst hc'
    rwa [Disk.database_write (hv c hc), if_pos rfl]

end Mounted

namespace Store

variable {α : Type} {m : Mounted} {name : String}

/-! ## Single steps -/

theorem ends_connected {Q : DatabaseId → Mounted → Prop} {E : StoreError → Mounted → Prop} :
    Ends connected m Q E ↔
      match m.store.connection with
      | some c => Q c m
      | none => E .closed m := by
  rw [connected, ends_bind, ends_get]
  cases m.store.connection <;> rfl

theorem ends_reading {Q : Database → Mounted → Prop} {E : StoreError → Mounted → Prop} :
    Ends reading m Q E ↔
      match m.store.connection with
      | some c => Q (m.disk.database c) m
      | none => E .closed m := by
  rw [reading, ends_bind, ends_connected]
  cases m.store.connection <;> rfl

/-- An error of a statement, or of a store that is closed. -/
def IsRefusal (e : StoreError) : Prop := e = .statement ∨ e = .closed

/-- A change is made as a whole or not at all. -/
theorem change_ends (name : String) (hv : m.Valid) {f : Database → Option Database}
    (hf : ∀ db db', f db = some db' → Database.AgreesBut name db db') : Ends (change f) m
    (fun _ m' => m.Writes name m' ∧ m.isReadOnly = false ∧
      ∀ c, m.store.connection = some c → f (m.disk.database c) = some (m'.disk.database c))
    fun e m' => m' = m ∧ IsRefusal e ∧ (m.isReadOnly = true ∨
      ∀ c, m.store.connection = some c → f (m.disk.database c) = none) := by
  rw [change, ends_bind, ends_connected]
  cases hc : m.store.connection with
  | none => exact ⟨rfl, .inr rfl, .inr fun c h => by cases h⟩
  | some c =>
    dsimp only
    rw [ends_bind, ends_get]
    cases hdb : f (m.disk.database c) with
    | none =>
      refine ⟨rfl, .inl rfl, .inr fun c' h => ?_⟩
      cases h
      exact hdb
    | some db =>
      dsimp only
      rw [show (isMoved m || !m.store.path.takesChanges) = m.isReadOnly from rfl]
      cases m.isReadOnly with
      | true => exact ⟨rfl, .inl rfl, .inl rfl⟩
      | false =>
        refine ⟨Mounted.writes_write hv hc (hf _ _ hdb), rfl, fun c' h => ?_⟩
        cases h
        change _ = some ((m.disk.write c db).database c)
        rw [Disk.database_write (hv c hc), if_pos rfl, hdb]

@[simp] theorem ends_count {f : StoreCounters → StoreCounters} {Q : PUnit → Mounted → Prop}
    {E : StoreError → Mounted → Prop} :
    Ends (count f) m Q E ↔
      Q ⟨⟩ { m with store := { m.store with counters := f m.store.counters } } :=
  Iff.rfl

theorem writes_count (m : Mounted) (counters : StoreCounters) :
    m.Writes name { m with store := { m.store with counters := counters } } :=
  ⟨⟨_, rfl⟩, rfl, rfl, rfl, fun _ _ => rfl, fun _ _ => .refl _ _⟩

/-! ## Tables that are dropped, created and loaded -/

theorem dropTable_ends (hv : m.Valid) : Ends (dropTable name) m
    (fun _ m' => m.Writes name m' ∧ m'.table? name = none ∧ (m' = m ∨ m.isReadOnly = false))
    fun e m' => m' = m ∧ IsRefusal e := by
  rw [dropTable, ends_bind, ends_reading]
  cases hc : m.store.connection with
  | none => exact ⟨rfl, .inr rfl⟩
  | some c =>
    dsimp only
    refine Ends.ite (fun _ => ⟨rfl, .inl rfl⟩) fun _ => Ends.ite (fun _ => ?_) fun hn => ?_
    · refine (change_ends name hv fun db db' h => ?_).mono ?_ fun e m' h => ⟨h.1, h.2.1⟩
      · cases h
        exact Database.dropTable_agrees _ _
      · rintro - m' ⟨hw, hr, hdb⟩
        refine ⟨hw, ?_, .inr hr⟩
        rw [Mounted.table?_eq (hw.connection.trans hc), ← Option.some.inj (hdb c hc),
          Database.table?_dropTable, sameName_self]
        rfl
    · refine ⟨.refl _ _, ?_, .inl rfl⟩
      rw [Mounted.table?_eq hc]
      simpa using hn

/-- Why a table was not created: nothing was done, or the table that was to be replaced is gone and
the query reads what is not there or has no result that can be kept. -/
def CannotCreate (name : String) (q : Query) (m m' : Mounted) : Prop :=
  m' = m ∨ ∃ c db, m.store.connection = some c ∧
    Database.AgreesBut name (m.disk.database c) db ∧ db.table? name = none ∧
      (db.knowsSources q = false ∨ db.createTableAs? name q = none)

theorem createTableAs_ends (hv : m.Valid) {q : Query} : Ends (createTableAs name q) m
    (fun _ m' => m.Writes name m' ∧ ∃ c db t, m.store.connection = some c ∧
      Database.AgreesBut name (m.disk.database c) db ∧ db.isFree name = true ∧
      q.isAccepted Query.belowCreateTable = true ∧ m'.table? name = some t ∧
      db.resultOf? q = some t.content)
    fun e m' => m.Writes name m' ∧ CannotCreate name q m m' ∧
      (IsRefusal e ∨ e = .unknownTable ∧ ∃ c db, m.store.connection = some c ∧
        Database.AgreesBut name (m.disk.database c) db ∧ db.knowsSources q = false) := by
  rw [createTableAs, ends_bind, ends_connected]
  cases hc : m.store.connection with
  | none => exact ⟨.refl _ _, .inl rfl, .inl (.inr rfl)⟩
  | some c =>
    dsimp only
    refine (dropTable_ends hv).andThen ?_ fun e m' ⟨h, he⟩ => ⟨h ▸ .refl _ _, .inl h, .inl he⟩
    rintro - m₁ ⟨hw, hnone, hro⟩
    have hc₁ : m₁.store.connection = some c := hw.connection.trans hc
    have agrees := hw.tables c hc
    rw [Mounted.table?_eq hc₁] at hnone
    rw [ends_bind, ends_reading, hc₁]
    dsimp only
    refine Ends.ite (fun _ => ?_) fun hk => ?_
    · refine (change_ends name (hw.valid hv) fun db db' h =>
        (Database.table?_createTableAs? h).1).andThen ?_ ?_
      · rintro - m₂ ⟨hw₂, -, hdb⟩
        obtain ⟨-, hacc, t, ht, hres⟩ := Database.table?_createTableAs? (hdb c hc₁)
        rw [ends_count]
        refine ⟨(hw.trans hw₂).trans (writes_count _ _), c, _, t, rfl, agrees,
          Database.isFree_of_createTableAs? (hdb c hc₁), hacc, ?_, hres⟩
        rw [← ht]
        exact Mounted.table?_eq (hw₂.connection.trans hc₁) name
      · rintro e m₂ ⟨rfl, he, hwhy⟩
        refine ⟨hw, ?_, .inl he⟩
        rcases hwhy with hr | hdb
        · rw [hw.isReadOnly_eq] at hr
          exact .inl (hro.resolve_right (by simp [hr]))
        · exact .inr ⟨c, _, hc, agrees, hnone, .inr (hdb c hc₁)⟩
    · have hk : (m₁.disk.database c).knowsSources q = false := by simpa using hk
      exact ⟨hw, .inr ⟨c, _, hc, agrees, hnone, .inl hk⟩, .inr ⟨rfl, c, _, rfl, agrees, hk⟩⟩

/-- A table that is there when rows are added to it stays there. -/
theorem bulkLoad_ends (hv : m.Valid) {t : Table} {s : Schema} : Ends (bulkLoad name t s) m
    (fun _ m' => m.Writes name m' ∧ ∃ x, m'.table? name = some x ∧ x.IsLoaded t s)
    fun e m' => m.Writes name m' ∧ IsRefusal e := by
  rw [bulkLoad, ends_bind, ends_connected]
  cases hc : m.store.connection with
  | none => exact ⟨.refl _ _, .inr rfl⟩
  | some c =>
    dsimp only
    refine (dropTable_ends hv).andThen ?_ fun e m' h => ⟨h.1 ▸ .refl _ _, h.2⟩
    rintro - m₁ ⟨hw₁, -, -⟩
    have hc₁ : m₁.store.connection = some c := hw₁.connection.trans hc
    refine (change_ends name (hw₁.valid hv) fun db db' h =>
      (Database.table?_createTable? h).1).andThen ?_ ?_
    · rintro - m₂ ⟨hw₂, -, hdb⟩
      have hw₂ := hw₁.trans hw₂
      have hc₂ : m₂.store.connection = some c := hw₂.connection.trans hc
      obtain ⟨-, hne, entry, hnew⟩ := Database.table?_createTable? (hdb c hc₁)
      rw [ends_bind, ends_reading, hc₂]
      refine Ends.ite (fun _ => ⟨hw₂, .inl rfl⟩) fun hwidth => ?_
      rw [Database.width?, hnew, Option.map_some, List.length_map, bne_iff_ne, ne_eq, not_not,
        Option.some.injEq] at hwidth
      refine Ends.ite (fun _ => ?_) fun hrows => ?_
      · refine (change_ends name (hw₂.valid hv) fun db db' h => ?_).andThen ?_ ?_
        · cases h
          exact Database.insertRows_agrees _ _
        · rintro - m₃ ⟨hw₃, -, hdb₃⟩
          have hw₃ := hw₂.trans hw₃
          have htable := Database.table?_insertRows (m₂.disk.database c) name
            (t.rows.map fun r => r.map Datum.ofScalar) name
          rw [hnew, Option.map_some, sameName_self, if_pos rfl, Option.some.inj (hdb₃ c hc₂),
            ← Mounted.table?_eq (hw₃.connection.trans hc)] at htable
          exact ⟨hw₃.trans (writes_count _ _), _, htable, rfl, List.map_map, hwidth.symm, hne⟩
        · rintro e m₃ ⟨rfl, he, -⟩
          exact ⟨hw₂, he⟩
      · have hzero : t.rowCount = 0 := Nat.eq_zero_of_not_pos hrows
        rw [← Mounted.table?_eq hc₂] at hnew
        exact ⟨hw₂.trans (writes_count _ _), _, hnew, rfl, by rw [Table.rows, hzero]; rfl,
          hwidth.symm, hne⟩
    · rintro e m₂ ⟨rfl, he, -⟩
      exact ⟨hw₁, he⟩

/-! ## Tables that are read -/

theorem rowCount_ends : Ends (rowCount name) m
    (fun k m' => m' = m ∧ ∃ c, m.store.connection = some c ∧
      (m.disk.database c).rowCount? name = some k)
    fun e m' => m' = m ∧ IsRefusal e ∧
      ∀ c, m.store.connection = some c → (m.disk.database c).rowCount? name = none := by
  rw [rowCount, ends_bind, ends_reading]
  cases hc : m.store.connection with
  | none => exact ⟨rfl, .inr rfl, fun c h => by cases h⟩
  | some c =>
    dsimp only
    cases hn : (m.disk.database c).rowCount? name with
    | some n => exact ⟨rfl, c, rfl, hn⟩
    | none =>
      refine ⟨rfl, .inl rfl, fun c' h => ?_⟩
      cases h
      exact hn

theorem readTable_ends {columns : List String} : Ends (readTable name columns) m
    (fun t m' => m'.disk = m.disk ∧ m.Writes name m' ∧ ∃ c r, m.store.connection = some c ∧
      (m.disk.database c).query? (.readAll name columns) = some r ∧
      Table.ofColumns r.toColumns = .ok t)
    fun e m' => m' = m ∧ e.IsReportable := by
  rw [readTable, ends_bind, query, ends_bind, ends_reading]
  cases hc : m.store.connection with
  | none => exact ⟨rfl, trivial⟩
  | some c =>
    dsimp only
    cases hr : (m.disk.database c).query? (.readAll name columns) with
    | none => exact ⟨rfl, trivial⟩
    | some r =>
      dsimp only
      cases ht : Table.ofColumns r.toColumns with
      | error e => exact ⟨rfl, trivial⟩
      | ok t => exact ⟨rfl, writes_count _ _, c, r, rfl, hr, ht⟩

end Store
end LazyQuery
