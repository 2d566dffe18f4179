import LazyQuery.Store.Database

/-!
# Looking up tables

What the lookup of a table finds after each statement: the table that the statement is about, as the
statement leaves it, and every other table as it was. Names are the same if they differ in the case
of ASCII letters only.
-/

set_option autoImplicit false

namespace LazyQuery

namespace Sql

theorem sameName_iff {a b : String} : sameName a b = true ↔ Like.folded a = Like.folded b := by
  rw [sameName, beq_iff_eq]

@[simp] theorem sameName_self (a : String) : sameName a a = true := sameName_iff.2 rfl

theorem sameName_comm (a b : String) : sameName a b = sameName b a := by
  rw [Bool.eq_iff_iff, sameName_iff, sameName_iff, eq_comm]

theorem sameName_congr {a b : String} (h : sameName a b = true) (c : String) :
    sameName a c = sameName b c := by
  rw [Bool.eq_iff_iff, sameName_iff, sameName_iff, sameName_iff.1 h]

end Sql

open Sql

/-- The columns and rows of a table. -/
def StoredTable.content (t : StoredTable) : List (String × Affinity) × List (List Datum) :=
  (t.columns, t.rows)

/-- The table holds the rows of a table of cells, in columns that are declared by a schema. -/
structure StoredTable.IsLoaded (x : StoredTable) (t : Table) (s : Schema) : Prop where
  columns : x.columns = s.fields.map fun f => (f.name, declaredAffinity f.type)
  rows : x.rows = t.rows.map fun r => x.keptRow (r.map Datum.ofScalar)
  width : t.columns.length = s.fields.length
  nonempty : s.fields ≠ []

namespace StoredTable.IsLoaded

variable {x : StoredTable} {t : Table} {s : Schema}

theorem names (h : x.IsLoaded t s) : x.columns.map (·.1) = s.names := by
  rw [h.columns, List.map_map]
  rfl

theorem rows_length (h : x.IsLoaded t s) : x.rows.length = t.rowCount := by
  rw [h.rows, List.length_map, Table.rows, List.length_map, List.length_range]

theorem columns_ne_nil (h : x.IsLoaded t s) : t.columns ≠ [] := by
  intro he
  have hw := h.width
  rw [he] at hw
  exact h.nonempty (List.length_eq_zero_iff.1 hw.symm)

end StoredTable.IsLoaded

namespace Database

variable {db db' : Database} {name : String}

/-- The database has the tables of another one, but for those of a name. -/
structure AgreesBut (name : String) (db db' : Database) : Prop where
  table : ∀ n, sameName n name = false → db'.table? n = db.table? n
  plans : db'.plans = db.plans

theorem AgreesBut.refl (name : String) (db : Database) : AgreesBut name db db := ⟨fun _ _ => rfl, rfl⟩

theorem AgreesBut.trans {db'' : Database} (h : AgreesBut name db db')
    (h' : AgreesBut name db' db'') : AgreesBut name db db'' :=
  ⟨fun n hn => (h'.table n hn).trans (h.table n hn), h'.plans.trans h.plans⟩

theorem sameName_of_table? {n : String} {t : StoredTable} (h : db.table? n = some t) :
    sameName t.name n = true :=
  List.find?_some (p := fun t : StoredTable => sameName t.name n) h

theorem table?_dropTable (db : Database) (name n : String) :
    (db.dropTable name).table? n = if sameName n name then none else db.table? n := by
  have key : ∀ t : StoredTable, decide ((!sameName t.name name) = true ∧ sameName t.name n = true) =
      if sameName n name then false else sameName t.name n := by
    intro t
    cases ht : sameName t.name n with
    | false => simp
    | true => rw [sameName_congr ht]; cases sameName n name <;> simp
  rw [table?, dropTable, List.find?_filter]
  simp only [key]
  cases sameName n name with
  | true => simp
  | false => rfl

theorem dropTable_agrees (db : Database) (name : String) :
    AgreesBut name db (db.dropTable name) := by
  refine ⟨fun n hn => ?_, rfl⟩
  rw [table?_dropTable, hn]
  rfl

theorem tables_takePage (db : Database) : db.takePage.2.tables = db.tables := by
  unfold takePage
  split <;> rfl

theorem plans_takePage (db : Database) : db.takePage.2.plans = db.plans := by
  unfold takePage
  split <;> rfl

theorem table?_addTable (db : Database) (columns : List (String × Affinity)) (definition n : String)
    (h : db.table? name = none) :
    ∃ entry, (db.addTable name columns definition).table? n =
      if sameName n name then some ⟨name, columns, [], entry⟩ else db.table? n := by
  refine ⟨⟨db.nextNumber, db.takePage.1, definition⟩, ?_⟩
  simp only [table?, addTable, tables_takePage, List.find?_append, List.find?_singleton]
  rw [sameName_comm n name]
  cases hn : sameName name n with
  | true =>
    have : db.tables.find? (fun t => sameName t.name n) = none := by
      rw [table?, List.find?_eq_none] at h
      refine List.find?_eq_none.2 fun t ht => ?_
      rw [sameName_comm, ← sameName_congr hn, sameName_comm]
      exact h t ht
    simp [this]
  | false => simp

theorem table?_insertRows (db : Database) (name : String) (rows : List (List Datum)) (n : String) :
    (db.insertRows name rows).table? n =
      (db.table? n).map fun t => if sameName n name then t.insertRows rows else t := by
  simp only [table?, insertRows, List.find?_map]
  have key : (fun t : StoredTable => sameName t.name n) ∘
      (fun t => if sameName t.name name then t.insertRows rows else t) =
        fun t => sameName t.name n := by
    funext t
    simp only [Function.comp]
    cases sameName t.name name <;> rfl
  rw [key]
  cases h : db.tables.find? fun t => sameName t.name n with
  | none => rfl
  | some t =>
    have := sameName_of_table? h
    simp only [Option.map_some, sameName_congr this]

theorem insertRows_agrees (db : Database) (rows : List (List Datum)) :
    AgreesBut name db (db.insertRows name rows) := by
  refine ⟨fun n hn => ?_, rfl⟩
  rw [table?_insertRows]
  simp [hn]

theorem table?_of_isFree (h : db.isFree name = true) : db.table? name = none := by
  simp only [isFree, Bool.and_eq_true, Option.isNone_iff_eq_none] at h
  exact h.2

theorem table?_createTable? {s : Schema} (h : db.createTable? name s = some db') :
    AgreesBut name db db' ∧ s.fields ≠ [] ∧ ∃ entry, db'.table? name =
      some ⟨name, s.fields.map fun f => (f.name, declaredAffinity f.type), [], entry⟩ := by
  rw [createTable?] at h
  split at h
  · cases h
  · cases h
    rename_i hc
    simp only [Bool.or_eq_true, not_or, Bool.not_eq_true, Bool.not_eq_false'] at hc
    have free := table?_of_isFree hc.2
    refine ⟨⟨fun n hn => ?_, plans_takePage db⟩, by simpa using hc.1.1.1.1, ?_⟩
    · obtain ⟨entry, h⟩ := table?_addTable db (s.fields.map fun f => (f.name, declaredAffinity f.type))
        (createTableText name s) n free
      rw [h, hn]
      rfl
    · obtain ⟨entry, h⟩ := table?_addTable db
        (s.fields.map fun f => (f.name, declaredAffinity f.type)) (createTableText name s) name free
      exact ⟨entry, by rw [h, sameName_self, if_pos rfl]⟩

/-! ## Tables created from queries -/

/-- Is the name one of a listing? -/
def isListingName (name : String) : Bool :=
  listingNames.any (sameName name) || emptyListingNames.any (sameName name)

theorem relationWith?_of_table? (listing : Relation) {t : StoredTable}
    (hn : isListingName name = false) (h : db.table? name = some t) :
    db.relationWith? listing name = some t.relation := by
  rw [isListingName, Bool.or_eq_false_iff] at hn
  simp [relationWith?, hn.1, hn.2, h]

/-- What a table that is created from a query holds. -/
def resultOf? (db : Database) (q : Query) :
    Option (List (String × Affinity) × List (List Datum)) :=
  (q.eval? (db.catalogWith db.listingWithPending q)).map fun r =>
    let named := r.asTable (db.plans q)
    let columns := named.columns.map fun h =>
      (h.name, if h.affinity = .none then .blob else h.affinity)
    (columns, named.rows.map (StoredTable.keptRow ⟨"", columns, [], default⟩))

theorem table?_createTableAs? {q : Query} (h : db.createTableAs? name q = some db') :
    AgreesBut name db db' ∧ q.isAccepted Query.belowCreateTable = true ∧
      ∃ t, db'.table? name = some t ∧ db.resultOf? q = some t.content := by
  rw [createTableAs?] at h
  split at h
  · cases h
  rename_i hc
  simp only [Bool.or_eq_true, not_or, Bool.not_eq_true, Bool.not_eq_false'] at hc
  obtain ⟨r, hr, h⟩ := Option.bind_eq_some_iff.1 h
  cases h
  have free := table?_of_isFree hc.2
  refine ⟨⟨fun n hn => ?_, plans_takePage db⟩, hc.1, ?_⟩
  · rw [(insertRows_agrees _ _).table n hn]
    obtain ⟨entry, h⟩ := table?_addTable db _ _ n free
    rw [h, hn]
    rfl
  · obtain ⟨entry, h⟩ := table?_addTable db _ _ name free
    rw [table?_insertRows, h, sameName_self]
    refine ⟨_, rfl, ?_⟩
    rw [resultOf?, hr]
    rfl

theorem isFree_of_createTableAs? {q : Query} (h : db.createTableAs? name q = some db') :
    db.isFree name = true := by
  rw [createTableAs?] at h
  split at h
  · cases h
  rename_i hc
  simp only [Bool.or_eq_true, not_or, Bool.not_eq_true, Bool.not_eq_false'] at hc
  exact hc.2

/-- A name that was free in some database is free in any that has no table of it. -/
theorem isFree_congr (h : db.isFree name = true) (hn : db'.table? name = none) :
    db'.isFree name = true := by
  simp only [isFree, Bool.and_eq_true] at h ⊢
  exact ⟨h.1, by rw [hn]; rfl⟩

/-- Whether a table can be created hangs on its name and on the query's result. -/
theorem createTableAs?_isSome {q : Query} {c : List (String × Affinity) × List (List Datum)}
    (ha : q.isAccepted Query.belowCreateTable = true) (hf : db.isFree name = true)
    (hr : db.resultOf? q = some c) : ∃ db', db.createTableAs? name q = some db' := by
  rw [resultOf?, Option.map_eq_some_iff] at hr
  obtain ⟨r, hr, -⟩ := hr
  rw [createTableAs?, ha, hf, hr]
  exact ⟨_, rfl⟩

/-- A count is that of the rows of a table. -/
theorem rowCount?_of_table? {t : StoredTable} (hn : isListingName name = false)
    (h : db.table? name = some t) : db.rowCount? name = some t.rows.length := by
  rw [rowCount?, relation?, relationWith?_of_table? _ hn h]
  rfl

/-- A query has the same result over any tables of the same contents, by the same plan. -/
theorem resultOf?_congr {q : Query} (hp : db.plans q = db'.plans q)
    (h : ∀ n ∈ q.sourceNames, isListingName n = false ∧
      ∃ t t', db.table? n = some t ∧ db'.table? n = some t' ∧ t.content = t'.content) :
    db.resultOf? q = db'.resultOf? q := by
  have key : (db.catalogWith db.listingWithPending q).only q.sourceNames =
      (db'.catalogWith db'.listingWithPending q).only q.sourceNames := by
    simp only [catalogWith, Catalog.only, hp, Catalog.mk.injEq, and_true]
    funext n
    by_cases hn : n ∈ q.sourceNames
    · obtain ⟨hl, t, t', ht, ht', hc⟩ := h n hn
      rw [if_pos hn, if_pos hn, relationWith?_of_table? _ hl ht, relationWith?_of_table? _ hl ht']
      simp only [StoredTable.content, Prod.mk.injEq] at hc
      rw [StoredTable.relation, StoredTable.relation, hc.1, hc.2]
    · rw [if_neg hn, if_neg hn]
  simp only [resultOf?, Query.eval?, key, hp]

end Database
end LazyQuery
