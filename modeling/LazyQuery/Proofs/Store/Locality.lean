import LazyQuery.Proofs.Store.Files
import LazyQuery.Proofs.Store.Statements

/-!
# What a statement hangs on

A statement hangs on the tables that it names, and on nothing else that a database holds.

* `Database.Alike own db db'` says that two databases have the same contents in the tables of some names,
  and `Disk.Alike own d d'` says it of the databases of two disks with the same files.
* A statement about such names has the same answer on both disks, which stay alike
  (`Statement.send_alike`).
* A statement about other names leaves a disk like itself (`Statement.send_foreign`).

Names that every database has a table of are left out: what the listing says is nobody's own.
-/

set_option autoImplicit false

namespace LazyQuery

open Sql

variable {own : String → Prop} {name : String}

namespace Database

variable {db db' : Database}

/-! ## Names that are not built in -/

/-- Is it the name of no table that every database has? -/
def IsPlain (name : String) : Prop := isListingName name = false ∧ isBuiltIn name = false

/-- The names of built-in tables are those in an empty database. -/
theorem builtIn?_of_isPlain (h : IsPlain name) (db : Database) : db.builtIn? name = none := by
  -- The rows of a built-in table may hang on the database, but its name does not.
  have names : db.builtIns.map BuiltIn.name = (builtIns empty).map BuiltIn.name := by
    simp only [builtIns, List.map_append]
    rfl
  have hempty := (Bool.or_eq_false_iff.1 h.2).2
  have hall : ∀ n ∈ db.builtIns.map BuiltIn.name, sameName name n = false := by
    rw [names]
    intro n hn
    obtain ⟨t, ht, rfl⟩ := List.mem_map.1 hn
    simpa using List.any_eq_false.1 hempty t ht
  rw [builtIn?, Option.map_eq_none_iff, List.find?_eq_none]
  intro t ht
  simp [hall t.name (List.mem_map_of_mem ht)]

theorem relationWith?_of_isPlain (h : IsPlain name) (db : Database) (listing : Relation) :
    db.relationWith? listing name = (db.table? name).map StoredTable.relation := by
  have hl := Bool.or_eq_false_iff.1 h.1
  rw [relationWith?, if_neg (by simp [hl.1]), if_neg (by simp [hl.2]), builtIn?_of_isPlain h]
  cases db.table? name <;> rfl

/-! ## Databases that are alike -/

/-- The tables of some names have the same contents in both databases, and queries are carried out by the
same plans. -/
structure Alike (own : String → Prop) (db db' : Database) : Prop where
  content : ∀ n, own n →
    (db.table? n).map StoredTable.content = (db'.table? n).map StoredTable.content
  plans : db.plans = db'.plans

namespace Alike

theorem refl (own : String → Prop) (db : Database) : Alike own db db := ⟨fun _ _ => rfl, rfl⟩

theorem trans {db'' : Database} (h : Alike own db db') (h' : Alike own db' db'') :
    Alike own db db'' :=
  ⟨fun n hn => (h.content n hn).trans (h'.content n hn), h.plans.trans h'.plans⟩

/-- A table is in both databases or in neither, and whatever is made of its contents is the same. -/
theorem table? (h : Alike own db db') (hn : own name) :
    db.table? name = none ∧ db'.table? name = none ∨
      ∃ t t', db.table? name = some t ∧ db'.table? name = some t' ∧ t.columns = t'.columns ∧
        t.rows = t'.rows := by
  have hc := h.content name hn
  cases ht : db.table? name with
  | none =>
    rw [ht, Option.map_none, eq_comm, Option.map_eq_none_iff] at hc
    exact .inl ⟨rfl, hc⟩
  | some t =>
    rw [ht, Option.map_some, eq_comm, Option.map_eq_some_iff] at hc
    obtain ⟨t', ht', hc⟩ := hc
    obtain ⟨hcolumns, hrows⟩ := Prod.mk.inj hc
    exact .inr ⟨t, t', rfl, ht', hcolumns.symm, hrows.symm⟩

theorem isSome_table? (h : Alike own db db') (hn : own name) :
    (db.table? name).isSome = (db'.table? name).isSome := by
  rw [← Option.isSome_map, h.content name hn, Option.isSome_map]

theorem relationWith? (h : Alike own db db') (hn : own name) (hp : IsPlain name)
    (listing listing' : Relation) :
    db.relationWith? listing name = db'.relationWith? listing' name := by
  rw [relationWith?_of_isPlain hp, relationWith?_of_isPlain hp]
  obtain ⟨ht, ht'⟩ | ⟨t, t', ht, ht', hcolumns, hrows⟩ := h.table? hn
  · rw [ht, ht']
  · rw [ht, ht', Option.map_some, Option.map_some, StoredTable.relation, StoredTable.relation,
      hcolumns, hrows]

theorem width? (h : Alike own db db') (hn : own name) : db.width? name = db'.width? name := by
  rw [Database.width?, Database.width?]
  obtain ⟨ht, ht'⟩ | ⟨t, t', ht, ht', hcolumns, -⟩ := h.table? hn
  · rw [ht, ht']
  · rw [ht, ht', Option.map_some, Option.map_some, hcolumns]

theorem rowCount? (h : Alike own db db') (hn : own name) (hp : IsPlain name) :
    db.rowCount? name = db'.rowCount? name := by
  rw [Database.rowCount?, Database.rowCount?, relation?, relation?, h.relationWith? hn hp]

theorem isFree (h : Alike own db db') (hn : own name) : db.isFree name = db'.isFree name := by
  rw [Database.isFree, Database.isFree, ← Option.not_isSome, ← Option.not_isSome, h.isSome_table? hn]

/-! ## Queries -/

section

variable {q : Query} (hq : ∀ n ∈ q.sourceNames, own n ∧ IsPlain n)

include hq

theorem eval? (h : Alike own db db') (listing listing' : Relation) :
    q.eval? (db.catalogWith listing q) = q.eval? (db'.catalogWith listing' q) := by
  -- A query is evaluated in what the catalog has under its own names: the listings do not matter.
  have hcatalog : (db.catalogWith listing q).only q.sourceNames =
      (db'.catalogWith listing' q).only q.sourceNames := by
    simp only [catalogWith, Catalog.only, h.plans, Catalog.mk.injEq, and_true]
    funext n
    by_cases hn : n ∈ q.sourceNames
    · rw [if_pos hn, if_pos hn, h.relationWith? (hq n hn).1 (hq n hn).2]
    · rw [if_neg hn, if_neg hn]
  simp only [Query.eval?, hcatalog]

theorem query? (h : Alike own db db') : db.query? q = db'.query? q := by
  rw [Database.query?, Database.query?, catalog, catalog, h.eval? hq]

theorem knowsSources (h : Alike own db db') : db.knowsSources q = db'.knowsSources q := by
  have known : ∀ n ∈ q.sourceNames, (db.relation? n).isSome = (db'.relation? n).isSome := fun n hn => by
    rw [relation?, relation?, h.relationWith? (hq n hn).1 (hq n hn).2]
  have named {p : String × Compound} (hp : p ∈ q.named) {n : String} (hn : n ∈ p.2.names) :
      n ∈ q.sourceNames :=
    List.mem_append_left _ (List.mem_flatMap.2 ⟨p, hp, hn⟩)
  rw [Bool.eq_iff_iff]
  exact ⟨fun hr => readsOnly_mono hr (fun p hp n hn hk => known n (named hp hn) ▸ hk)
      fun n hn hk => known n (List.mem_append_right _ hn) ▸ hk,
    fun hr => readsOnly_mono hr (fun p hp n hn hk => (known n (named hp hn)).symm ▸ hk)
      fun n hn hk => (known n (List.mem_append_right _ hn)).symm ▸ hk⟩

end

/-! ## Changes -/

theorem dropTable (h : Alike own db db') (name : String) :
    Alike own (db.dropTable name) (db'.dropTable name) := by
  refine ⟨fun n hn => ?_, h.plans⟩
  rw [table?_dropTable, table?_dropTable]
  split
  · rfl
  · exact h.content n hn

theorem addTable (h : Alike own db db') (hfree : db.table? name = none)
    (hfree' : db'.table? name = none) (columns : List (String × Affinity)) (definition : String) :
    Alike own (db.addTable name columns definition) (db'.addTable name columns definition) := by
  refine ⟨fun n hn => ?_, (plans_takePage db).trans (h.plans.trans (plans_takePage db').symm)⟩
  obtain ⟨entry, ht⟩ := table?_addTable db columns definition n hfree
  obtain ⟨entry', ht'⟩ := table?_addTable db' columns definition n hfree'
  rw [ht, ht']
  split
  · rfl
  · exact h.content n hn

theorem insertRows (h : Alike own db db') (name : String) (rows : List (List Datum)) :
    Alike own (db.insertRows name rows) (db'.insertRows name rows) := by
  refine ⟨fun n hn => ?_, h.plans⟩
  rw [table?_insertRows, table?_insertRows]
  obtain ⟨ht, ht'⟩ | ⟨t, t', ht, ht', hcolumns, hrows⟩ := h.table? hn
  · rw [ht, ht']
  · rw [ht, ht']
    simp only [Option.map_some, Option.some.injEq]
    have hkept : t.keptRow = t'.keptRow := by
      funext row
      rw [StoredTable.keptRow, StoredTable.keptRow, hcolumns]
    split
    · simp [StoredTable.content, StoredTable.insertRows, hcolumns, hrows, hkept]
    · simp [StoredTable.content, hcolumns, hrows]

theorem createTable? (h : Alike own db db') (hn : own name) (s : Schema) :
    Option.Rel (Alike own) (db.createTable? name s) (db'.createTable? name s) := by
  rw [Database.createTable?, Database.createTable?, h.isFree hn]
  split
  · exact .none
  · rename_i hc
    simp only [Bool.or_eq_true, not_or, Bool.not_eq_true, Bool.not_eq_false'] at hc
    have hfree := hc.2
    exact .some (h.addTable (table?_of_isFree ((h.isFree hn).trans hfree)) (table?_of_isFree hfree) _ _)

theorem createTableAs? (h : Alike own db db') (hn : own name) {q : Query}
    (hq : ∀ n ∈ q.sourceNames, own n ∧ IsPlain n) :
    Option.Rel (Alike own) (db.createTableAs? name q) (db'.createTableAs? name q) := by
  rw [Database.createTableAs?, Database.createTableAs?, h.isFree hn,
    h.eval? hq db.listingWithPending db'.listingWithPending, h.plans]
  split
  · exact .none
  · rename_i hc
    simp only [Bool.or_eq_true, not_or, Bool.not_eq_true, Bool.not_eq_false'] at hc
    have hfree := hc.2
    cases q.eval? (db'.catalogWith db'.listingWithPending q) with
    | none => exact .none
    | some r =>
      exact .some ((h.addTable (table?_of_isFree ((h.isFree hn).trans hfree)) (table?_of_isFree hfree)
        _ _).insertRows _ _)

end Alike
end Database

namespace Disk

variable {d d' d'' : Disk}

/-- The disks have the same files, and the tables of some names have the same contents on both; queries
are carried out by the same plans. -/
structure Alike (own : String → Prop) (d d' : Disk) : Prop where
  files : d.files = d'.files
  size : d.databases.size = d'.databases.size
  database : ∀ c, (d.database c).Alike own (d'.database c)
  plans : d.plans = d'.plans

namespace Alike

theorem refl (own : String → Prop) (d : Disk) : Alike own d d := ⟨rfl, rfl, fun _ => .refl _ _, rfl⟩

theorem trans (h : Alike own d d') (h' : Alike own d' d'') : Alike own d d'' :=
  ⟨h.files.trans h'.files, h.size.trans h'.size, fun c => (h.database c).trans (h'.database c),
    h.plans.trans h'.plans⟩

theorem isReadOnly (h : Alike own d d') (store : Store) :
    Mounted.isReadOnly ⟨d, store⟩ = Mounted.isReadOnly ⟨d', store⟩ := by
  have hin : d.databaseIn = d'.databaseIn := by
    funext file
    rw [databaseIn, databaseIn, h.files]
  simp [Mounted.isReadOnly, Store.isMoved, lookup, hin]

theorem write (h : Alike own d d') {db db' : Database} (hdb : db.Alike own db') (c : DatabaseId) :
    Alike own (d.write c db) (d'.write c db') := by
  refine ⟨h.files, by simp [Disk.write, h.size], fun i => ?_, h.plans⟩
  by_cases hc : c < d.databases.size
  · rw [database_write hc, database_write (h.size ▸ hc)]
    split
    · exact hdb
    · exact h.database i
  · have outside {d : Disk} (hc : ¬c < d.databases.size) (db : Database) : d.write c db = d := by
      rw [Disk.write, Array.setIfInBounds, dif_neg hc]
    rw [outside hc, outside (h.size ▸ hc)]
    exact h.database i

end Alike

/-- A change of a database that leaves tables of some names alone. -/
theorem alike_write {c : DatabaseId} {db : Database} (h : db.Alike own (d.database c)) :
    Alike own (d.write c db) d := by
  refine ⟨rfl, by simp [Disk.write], fun i => ?_, rfl⟩
  by_cases hc : c < d.databases.size
  · rw [database_write hc]
    split
    · subst i
      exact h
    · exact .refl own _
  · rw [Disk.write, Array.setIfInBounds, dif_neg hc]
    exact .refl own _

end Disk

namespace Statement

/-! ## Statements on disks that are alike -/

/-- The same comes of a statement, but for tables of other names in the changed database. -/
inductive SameOutcome (own : String → Prop) {α : Type} :
    Except StoreError (α × Option Database) → Except StoreError (α × Option Database) → Prop
  | refused (e : StoreError) : SameOutcome own (.error e) (.error e)
  | answered (a : α) {changed changed' : Option Database}
      (h : Option.Rel (Database.Alike own) changed changed') :
      SameOutcome own (.ok (a, changed)) (.ok (a, changed'))

variable {p : Statement} {db db' : Database} {d d' : Disk}

/-- What comes of a statement hangs on the tables that it names. -/
theorem eval_alike (plain : ∀ n, own n → Database.IsPlain n) (hp : ∀ n ∈ p.names, own n)
    (h : db.Alike own db') : SameOutcome own (p.eval db) (p.eval db') := by
  cases p with
  | drop name =>
    have hn : own name := hp name List.mem_cons_self
    rw [eval, eval, h.isSome_table? hn]
    split
    · exact .refused _
    · split
      · exact .answered _ (.some (h.dropTable name))
      · exact .answered _ .none
  | create name s =>
    have hn : own name := hp name List.mem_cons_self
    have hc := h.createTable? hn s
    rw [eval, eval]
    generalize db.createTable? name s = x, db'.createTable? name s = x' at hc
    cases hc with
    | none => exact .refused _
    | some h => exact .answered _ (.some h)
  | createAs name q =>
    have hn : own name := hp name List.mem_cons_self
    have hq : ∀ n ∈ q.sourceNames, own n ∧ Database.IsPlain n := fun n hn =>
      have h := hp n (List.mem_cons_of_mem _ hn)
      ⟨h, plain n h⟩
    have hc := h.createTableAs? hn hq
    rw [eval, eval, h.knowsSources hq]
    split
    · generalize db.createTableAs? name q = x, db'.createTableAs? name q = x' at hc
      cases hc with
      | none => exact .refused _
      | some h => exact .answered _ (.some h)
    · exact .refused _
  | insert name t =>
    have hn : own name := hp name List.mem_cons_self
    rw [eval, eval, h.width? hn]
    split
    · split
      · exact .answered _ (.some (h.insertRows name _))
      · exact .answered _ .none
    · exact .refused _
  | read name columns =>
    have hn : own name := hp name List.mem_cons_self
    have hq : ∀ n ∈ (Query.readAll name columns).sourceNames, own n ∧ Database.IsPlain n := by
      intro n h
      obtain rfl : n = name := List.mem_singleton.1 h
      exact ⟨hn, plain n hn⟩
    rw [eval, eval, h.query? hq]
    split
    · split
      · exact .answered _ .none
      · exact .refused _
    · exact .refused _
  | count name =>
    have hn : own name := hp name List.mem_cons_self
    rw [eval, eval, h.rowCount? hn (plain name hn)]
    split
    · exact .answered _ .none
    · exact .refused _

/-- A statement changes the table that it is about. -/
theorem eval_agrees {a : p.Answer} (h : p.eval db = .ok (a, some db')) :
    Database.AgreesBut p.target db db' := by
  cases p with
  | drop name =>
    rw [eval] at h
    split at h
    · cases h
    · split at h
      · cases h
        exact Database.dropTable_agrees db name
      · cases h
  | create name s =>
    rw [eval] at h
    split at h
    · rename_i hc
      cases h
      exact (Database.table?_createTable? hc).1
    · cases h
  | createAs name q =>
    rw [eval] at h
    split at h
    · split at h
      · rename_i hc
        cases h
        exact (Database.table?_createTableAs? hc).1
      · cases h
    · cases h
  | insert name t =>
    rw [eval] at h
    split at h
    · split at h
      · cases h
        exact Database.insertRows_agrees db _
      · cases h
    · cases h
  | read name columns =>
    rw [eval] at h
    split at h
    · split at h <;> cases h
    · cases h
  | count name =>
    rw [eval] at h
    split at h <;> cases h

/-- **A statement about tables of some names has the same answer on disks that are alike**, and leaves
them alike. -/
theorem send_alike (plain : ∀ n, own n → Database.IsPlain n) (hp : ∀ n ∈ p.names, own n)
    (h : d.Alike own d') (store : Store) :
    (p.send store d).1 = (p.send store d').1 ∧
      (p.send store d).2.Alike own (p.send store d').2 := by
  rw [send, send]
  cases store.connection with
  | none => exact ⟨rfl, h⟩
  | some c =>
    have hsame := eval_alike plain hp (h.database c)
    dsimp only
    generalize p.eval (d.database c) = x, p.eval (d'.database c) = x' at hsame
    cases hsame with
    | refused e => exact ⟨rfl, h⟩
    | answered a hc =>
      cases hc with
      | none => exact ⟨rfl, h⟩
      | some hdb =>
        dsimp only
        rw [h.isReadOnly store]
        split
        · exact ⟨rfl, h⟩
        · exact ⟨rfl, h.write hdb c⟩

/-- **A statement leaves the tables of other names as they are.** -/
theorem send_foreign (hp : ∀ n, own n → sameName n p.target = false) (store : Store) (d : Disk) :
    (p.send store d).2.Alike own d := by
  rw [send]
  cases store.connection with
  | none => exact .refl own d
  | some c =>
    dsimp only
    split
    · exact .refl own d
    · exact .refl own d
    · rename_i a db heval
      split
      · exact .refl own d
      · have hagrees := eval_agrees heval
        exact Disk.alike_write ⟨fun n hn => by rw [hagrees.table n (hp n hn)], hagrees.plans⟩

end Statement
end LazyQuery
