import LazyQuery.Proofs.Sql.Queries
import LazyQuery.Proofs.Store.Regular

/-!
# Stored tables that hold tables of cells

A table of the store holds a table of cells if its columns are those of the schema, with affinities that
suit, and its rows are those of the table as they are stored. Then it has lost nothing: what is read of
it, with the types of the schema, is the table (`Database.coerce_readAll`).

A table that has been loaded holds the table that it was loaded from, and one that was created from a
query holds what the query's result holds.
-/

set_option autoImplicit false

namespace LazyQuery

open Sql
open scoped Numbers

namespace StoredTable

variable {x : StoredTable} {t : Table} {s : Schema}

/-- The columns are those of the schema, and keep the cells of its types. -/
def Suits (x : StoredTable) (s : Schema) : Prop :=
  List.Forall₂ (fun (c : String × Affinity) f => c.1 = f.name ∧ c.2.suits f.type = true) x.columns
    s.fields

/-- The columns keep the rows of a table as they are. -/
theorem Suits.keptRow_eq (h : x.Suits s) (ht : t.Conforms s) (i : Nat) :
    x.keptRow (storedRow t i) = storedRow t i := by
  rw [Suits] at h
  rw [Table.Conforms] at ht
  rw [keptRow, storedRow, Table.row]
  generalize x.columns = columns, t.columns = cells, s.fields = fields, t.rowCount = k at h ht
  induction h generalizing cells with
  | nil =>
    cases ht
    rfl
  | @cons c f columns fields hc _ ih =>
    obtain ⟨⟩ | ⟨hconf, ht⟩ := ht
    rename_i d cells
    have hadmits : f.type.admits (d.values.getD i .null) = true := by
      rw [List.getD_eq_getElem?_getD]
      cases hi : d.values[i]? with
      | none => exact DataType.admits_null _
      | some v => exact hconf.admits v (List.mem_of_getElem? hi)
    rw [List.map_cons, List.map_cons, List.zipWith_cons_cons, Affinity.keep_eq hc.2 hadmits, ih _ ht]

/-- Such a table holds the rows that it has. -/
theorem Suits.holds (h : x.Suits s) (hr : x.rows = (List.range t.rowCount).map (storedRow t)) :
    x.relation.Holds t s where
  headings := by
    rw [relation, Relation.numbered, Relation.ofTable, List.forall₂_map_left_iff]
    exact h.imp fun c f hc => ⟨hc.1, hc.2, rfl⟩
  rows := by
    rw [← hr]
    rfl
  numbers ns hns := by
    obtain rfl := Option.some.inj hns
    rw [List.length_map, List.length_range, hr, List.length_map, List.length_range]

/-- Columns as they are declared for a schema of plain cells. -/
theorem suits_declared (hx : x.columns = s.fields.map fun f => (f.name, declaredAffinity f.type))
    (ht : t.Conforms s) : x.Suits s := by
  rw [Suits, hx, List.forall₂_map_left_iff]
  refine List.forall₂_same.2 fun f hf => ⟨rfl, Affinity.suits_declared ?_⟩
  obtain ⟨i, hi, rfl⟩ := List.getElem_of_mem hf
  exact (ht.get (ht.length_eq ▸ hi) hi).isPlain

/-- **A table that has been loaded holds what it was loaded from.** -/
theorem IsLoaded.holds (h : x.IsLoaded t s) (ht : t.Conforms s) : x.relation.Holds t s := by
  have hsuits := suits_declared h.columns ht
  refine hsuits.holds ?_
  rw [h.rows, Table.rows, List.map_map]
  exact List.map_congr_left fun i _ => hsuits.keptRow_eq ht i

/-- There is a table that has been loaded from a table of plain cells. -/
theorem exists_holds (ht : t.Conforms s) : ∃ r : Relation, r.Holds t s := by
  let x : StoredTable := ⟨"", s.fields.map fun f => (f.name, declaredAffinity f.type),
    (List.range t.rowCount).map (storedRow t), default⟩
  exact ⟨x.relation, (suits_declared rfl ht).holds rfl⟩

end StoredTable

/-! ## What is read of them -/

namespace Sql

variable {name : String} {x : StoredTable} {t : Table} {s : Schema} {r : Relation}

/-- A table that holds a table of cells is regular, if its schema is one that can be read. -/
theorem isRegular_of_holds (h : x.relation.Holds t s) (ht : t.Conforms s) (hs : s.Apart)
    (ho : ∀ c ∈ s.names, sameName c "rowid" = false) (hn : t.rowCount < 2 ^ 63) :
    x.IsRegular ∧ x.columns.map (·.1) = s.names := by
  have hrows : x.rows = (List.range t.rowCount).map (storedRow t) := congrArg Delivery.rows h.rows
  have hheadings := h.headings
  rw [StoredTable.relation, Relation.numbered, Relation.ofTable, List.forall₂_map_left_iff] at hheadings
  have hnames : x.columns.map (·.1) = s.names := by
    rw [Schema.names, ← List.forall₂_eq_eq_eq, List.forall₂_map_left_iff, List.forall₂_map_right_iff]
    exact hheadings.imp fun c f hf => hf.name
  refine ⟨⟨hnames ▸ hs, fun c hc => ho _ (hnames ▸ List.mem_map_of_mem hc), fun row hrow => ?_, ?_⟩, hnames⟩
  · rw [hrows] at hrow
    obtain ⟨i, -, rfl⟩ := List.mem_map.1 hrow
    rw [storedRow_eq ht hs.nodup, List.length_map, ← hnames, List.length_map]
  · rw [hrows, List.length_map, List.length_range]
    exact hn

/-- **What is read of a table that holds a table of cells is just that**: its columns, and its rows in
their order. -/
theorem readAll_holds {catalog : Catalog} (hc : catalog name = some x.relation)
    (h : x.relation.Holds t s) (ht : t.Conforms s) (hs : s.Apart)
    (ho : ∀ c ∈ s.names, sameName c "rowid" = false) (hn : t.rowCount < 2 ^ 63)
    (hr : (Query.readAll name s.names).eval? catalog = some r) :
    r.names = s.names ∧ r.rows = (List.range t.rowCount).map (storedRow t) := by
  obtain ⟨hregular, hnames⟩ := isRegular_of_holds h ht hs ho hn
  rw [← hnames] at hr ⊢
  obtain ⟨hcolumns, hrows⟩ := readAll_regular hc hregular hr
  exact ⟨hcolumns, hrows.trans (congrArg Delivery.rows h.rows)⟩

end Sql

namespace Database

variable {db : Database} {name : String} {x : StoredTable} {t u : Table} {s : Schema} {q : Query}
  {r : Relation}

/-- **A table that was created from a query holds what the query yields**, if its columns are kept. -/
theorem holds_of_resultOf? (h : db.resultOf? q = some x.content)
    (hr : q.eval? (db.catalogWith db.listingWithPending q) = some r) (hholds : r.Holds t s)
    (ht : t.Conforms s) (hk : s.IsKept) : x.relation.Holds t s := by
  have htable := hholds.asTable hk (db.plans q)
  rw [resultOf?, hr, Option.map_some, Option.some.injEq, StoredTable.content, Prod.mk.injEq] at h
  obtain ⟨hcolumns, hrows⟩ := h
  rw [hcolumns] at hrows
  have hsuits : x.Suits s := by
    rw [StoredTable.Suits, ← hcolumns, List.forall₂_map_left_iff]
    exact htable.headings.imp fun c f hf => ⟨hf.name, Affinity.suits_stored hf.suits⟩
  refine hsuits.holds ?_
  have hstored : (r.asTable (db.plans q)).rows = (List.range t.rowCount).map (storedRow t) := by
    rw [htable.rows]
    rfl
  rw [← hrows, hstored, List.map_map]
  refine List.map_congr_left fun i _ => ?_
  exact hsuits.keptRow_eq ht i

/-- The columns of a relation that has the stored rows of a table. -/
theorem toColumns_eq (ht : t.Conforms s) (hs : s.names.Nodup) (hnames : r.names = s.names)
    (hrows : r.rows = (List.range t.rowCount).map (storedRow t)) :
    r.toColumns = t.columns.map fun c =>
      ⟨c.name, c.values.map fun v => (Datum.ofScalar v).toScalar⟩ := by
  have hcolumns := congrArg List.length hnames
  rw [Relation.names, List.length_map, ← ht.names_eq, Table.names, List.length_map] at hcolumns
  refine List.ext_getElem (by simp [Relation.toColumns, hcolumns]) fun j hj hj' => ?_
  rw [List.length_map] at hj'
  have hj₀ : j < r.columns.length := hcolumns ▸ hj'
  have hname : r.columns[j].name = t.columns[j].name := by
    have := List.getElem_of_eq (hnames.trans ht.names_eq.symm) (by simpa [Relation.names] using hj₀)
    simpa [Relation.names, Table.names] using this
  have hvalues : (r.rows.map fun row => ((row[j]?).getD .null).toScalar) =
      t.columns[j].values.map fun v => (Datum.ofScalar v).toScalar := by
    have hcell : t.column? t.columns[j].name = some t.columns[j] := by
      have hfound := (ht.columns_eq hs).get (ht.names_eq ▸ by simpa [Table.names] using hj') hj'
      rw [List.get_eq_getElem, List.get_eq_getElem] at hfound
      have hsame := List.find?_some hfound
      rw [beq_iff_eq] at hsame
      rwa [hsame]
    rw [hrows, ht.values_eq hcell, List.map_map, List.map_map]
    refine List.map_congr_left fun i _ => ?_
    rw [Function.comp, Function.comp, storedRow, Table.row, Table.cell_of_column? hcell]
    simp [hj']
  simp [Relation.toColumns, hname, hvalues]

/-- **A table that holds a table of cells has lost nothing.** What is read of it is the table, once its
columns are given their types. -/
theorem coerce_readAll (hn : isListingName name = false) (hx : db.table? name = some x)
    (h : x.relation.Holds t s) (ht : t.Conforms s) (hs : s.Apart)
    (ho : ∀ c ∈ s.names, sameName c "rowid" = false) (hcount : t.rowCount < 2 ^ 63)
    (hr : db.query? (.readAll name s.names) = some r) (hu : Table.ofColumns r.toColumns = .ok u) :
    u.coerce s = t := by
  rw [query?] at hr
  split at hr
  · obtain ⟨hnames, hrows⟩ := readAll_holds (relationWith?_of_table? _ hn hx) h ht hs ho hcount hr
    obtain ⟨_, -, hu⟩ := bind_eq_ok.1 hu
    obtain rfl := Except.ok.inj hu
    rw [toColumns_eq ht hs.nodup hnames hrows]
    refine Table.coerce_map ht hs.nodup _ fun type v hv => ?_
    cases v with
    | bool b => cases b <;> cases type <;>
        simp_all [DataType.admits, Scalar.isPlain, Scalar.isNull, Scalar.dataType, Datum.ofScalar,
          Datum.ofBool, Datum.toScalar, Scalar.coerce, Scalar.bit]
    | _ => cases type <;>
        simp_all [DataType.admits, Scalar.isPlain, Scalar.isNull, Scalar.dataType, Datum.ofScalar,
          Datum.toScalar, Scalar.coerce]
  · cases hr

end Database
end LazyQuery
