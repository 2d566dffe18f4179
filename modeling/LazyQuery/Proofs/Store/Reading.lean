import LazyQuery.Proofs.Sql.Headings
import LazyQuery.Proofs.Store.Tables

/-!
# Tables that are read back

The query that reads columns of a table goes through its rows one by one, whatever the columns are
called: a name that no column has stands for itself. So it yields as many rows as the table has
(`Database.rowCount_readAll`).
-/

set_option autoImplicit false

namespace LazyQuery

open Sql

namespace Sql

variable {catalog : Catalog} {name : String} {columns : List String} {x : StoredTable}

/-- What is read of a table, one `SELECT`. -/
def readAllSelect (name : String) (columns : List String) : Select :=
  { Select.ofInput (columns.map fun c => ⟨.bare c, none⟩) (.table name) with
    orderBy := [⟨.rowid, none⟩] }

theorem isRefusedAt_ofNumbered (name : String) (x : StoredTable) (i : Nat) :
    (Scope.ofNumbered name x.relation).isRefusedAt i = false := by
  rw [Scope.isRefusedAt, Option.any_eq_false]
  intro b hb
  rcases List.mem_append.1 (List.mem_of_getElem? hb) with hb | hb
  · obtain ⟨h, hh, rfl⟩ := List.mem_map.1 hb
    obtain ⟨c, -, rfl⟩ := List.mem_map.1 hh
    simp
  · obtain rfl := List.mem_singleton.1 hb
    simp

/-- The columns of a table can be computed, and its rows have numbers. -/
theorem readAllSelect_isPlain (name : String) (columns : List String) (x : StoredTable) :
    (readAllSelect name columns).IsPlain (Scope.ofNumbered name x.relation) := by
  have numbered : ((Scope.ofNumbered name x.relation).bareIndex? "rowid").isSome = true := by
    have hnumber : Scope.isNumberName "rowid" = true := by decide
    rw [Scope.bareIndex?, Scope.indexWhere?, hnumber]
    split
    · rfl
    · rw [if_pos rfl, List.findIdx?_isSome, List.any_eq_true]
      exact ⟨_, List.mem_append_right _ (List.mem_singleton_self _), rfl⟩
  refine ⟨rfl, rfl, fun i hi => ?_, fun c hc => (by cases hc), fun k hk => ?_⟩
  · obtain ⟨c, -, rfl⟩ := List.mem_map.1 hi
    refine ⟨rfl, rfl, ?_⟩
    rw [Expr.isRefused, Option.any_eq_false]
    exact fun j _ => by simp [isRefusedAt_ofNumbered]
  · obtain rfl := List.mem_singleton.1 hk
    exact ⟨rfl, numbered, rfl⟩

/-- The rows of a table with their numbers. -/
theorem numberedRows_relation (x : StoredTable) : ∃ rows : List (List Datum),
    x.relation.numberedRows = .ofRows rows ∧ rows.length = x.rows.length :=
  ⟨_, rfl, by simp [StoredTable.relation, Relation.numbered, Relation.ofTable, Delivery.ofRows]⟩

theorem length_plainRows {s : Select} {scope : Scope} {rows : List (List Datum)}
    (hd : s.distinct = false) (hc : s.condition? = none) :
    (s.plainRows scope rows).length = rows.length := by
  rw [Select.plainRows, hd, hc]
  split <;> simp [Select.sortRows_eq]

/-! ## Queries of one table -/

/-- The `SELECT` goes through one table row by row, and keeps them all; they can be sorted or cut off. -/
structure Select.IsScan (s : Select) (name : String) : Prop where
  input : s.input? = some (.table name)
  condition : s.condition? = none
  ungrouped : s.groupBy = []
  distinct : s.distinct = false

theorem readAllSelect_isScan (name : String) (columns : List String) :
    (readAllSelect name columns).IsScan name := ⟨rfl, rfl, rfl, rfl⟩

namespace Select.IsScan

variable {s : Select} {r q : Relation}

/-- Nothing can be merged into a query that names no results. -/
theorem layout? (h : s.IsScan name) (headings : Catalog) :
    ∃ layout, Query.layout? ⟨[], [s]⟩ headings = some layout := by
  obtain ⟨distinct, items, input?, condition?, groupBy, orderBy, limit?⟩ := s
  obtain ⟨rfl, rfl, rfl, rfl⟩ := h
  let s : Select := ⟨false, items, some (.table name), none, [], orderBy, limit?⟩
  let block := Block.ofSelect s false
  have hmerged : (Block.ofCompound [s]).flatMap (Block.mergeAll ⟨[], headings⟩ (129 + 1)) = [block] := by
    change Block.mergeAll _ _ block ++ [] = _
    rw [Block.mergeAll, List.append_nil]
    exact if_neg (show ¬ tableRoom < 1 by decide)
  have hblocks : Query.blocks? ⟨[], [s]⟩ ⟨[], headings⟩ [s] = some [block] :=
    congrArg (fun blocks : List Block =>
      if blocks.all (fun b => b.sources.length ≤ tableRoom) then some blocks else none) hmerged
  rw [Query.layout?]
  change ∃ layout, Option.bind (Query.blocks? _ ⟨[], headings⟩ _) _ = some layout
  rw [hblocks]
  exact ⟨_, rfl⟩

theorem sourceNames (h : s.IsScan name) : Query.sourceNames ⟨[], [s]⟩ = [name] := by
  rw [Query.sourceNames, Compound.names, List.flatMap_singleton, h.input]
  rfl

/-- A query that names no results is answered as it is written or by its layout. -/
theorem eval?_eq (h : s.IsScan name) (catalog : Catalog)
    (hlong : s.exprs.any Expr.hasLongPattern = false) :
    ∃ headings layout, Query.eval? catalog ⟨[], [s]⟩ =
      (Query.evalAsWritten? (catalog.only [name]) ⟨[], [s]⟩ <|>
        Query.evalByLayout? (catalog.only [name]) headings layout ⟨[], [s]⟩) := by
  have hquery : Query.hasLongPattern ⟨[], [s]⟩ = false := by
    simp [Query.hasLongPattern, Query.compounds, hlong]
  obtain ⟨layout, hlayout⟩ := h.layout? (catalog.only [name]).headingsOnly
  refine ⟨(catalog.only [name]).headingsOnly, layout, ?_⟩
  rw [Query.eval?, h.sourceNames]
  change Option.bind (Query.layout? _ _) _ = _
  rw [hlayout, Option.bind_some, hquery, if_neg Bool.false_ne_true]

theorem evalAsWritten? (hr : s.eval? catalog true = some r) :
    ∃ q, q.names = r.names ∧ q.toDelivery = r.toDelivery ∧
      Query.evalAsWritten? catalog ⟨[], [s]⟩ = if r.breaksOff then none else some q := by
  obtain ⟨q, hq, hnames, hqr⟩ := evalCompound?_of_select hr
  refine ⟨q, hnames, hqr, ?_⟩
  rw [Query.evalAsWritten?]
  change (evalCompound? _ true [s]).bind _ = _
  rw [hq, Option.bind_some, ← hqr]
  dsimp only
  rw [List.any_nil, Bool.or_false]

/-- If all rows can be had, they are the answer, and the layout does not matter. -/
theorem eval?_of_written (h : s.IsScan name) (hlong : s.exprs.any Expr.hasLongPattern = false)
    (hr : s.eval? (catalog.only [name]) true = some r) (hoff : r.breaksOff = false) :
    ∃ q, Query.eval? catalog ⟨[], [s]⟩ = some q ∧ q.names = r.names ∧
      q.toDelivery = r.toDelivery := by
  obtain ⟨headings, layout, heval⟩ := h.eval?_eq catalog hlong
  obtain ⟨q, hnames, hqr, hwritten⟩ := evalAsWritten? hr
  refine ⟨q, ?_, hnames, hqr⟩
  rw [heval, hwritten, hoff]
  rfl

end Select.IsScan

/-- **What is read of a table goes through its rows one by one**, and there is something to be read if
the table is there. -/
theorem readAll_eval? (columns : List String) (hc : catalog name = some x.relation) :
    ∃ (r : Relation) (rows : List (List Datum)),
      (Query.readAll name columns).eval? catalog = some r ∧ x.relation.numberedRows = .ofRows rows ∧
        r.names = (columns.map fun c => Item.mk (.bare c) none).map
          (·.resultName (Scope.ofNumbered name x.relation)) ∧
        r.toDelivery = .ofRows ((readAllSelect name columns).plainRows
          (Scope.ofNumbered name x.relation) rows) := by
  obtain ⟨rows, hrows, -⟩ := numberedRows_relation x
  have plain := readAllSelect_isPlain name columns x
  have hlong : (readAllSelect name columns).exprs.any Expr.hasLongPattern = false := by
    simp [readAllSelect, Select.ofInput, Select.exprs, Expr.hasLongPattern]
  have hin : (readAllSelect name columns).reads? (catalog.only [name]) =
      some (Scope.ofNumbered name x.relation, .ofRows rows) := by
    rw [← hrows]
    exact Select.reads?_table rfl (by simp [Catalog.only, hc])
  obtain ⟨p, hp, hcolumns, hdelivery, -⟩ := Select.eval?_isSome true hin plain.wellFormed
  rw [plain.delivery] at hdelivery
  obtain ⟨q, hq, hnames, hqp⟩ := (readAllSelect_isScan name columns).eval?_of_written hlong hp
    (by rw [hdelivery]; rfl)
  refine ⟨q, rows, hq, hrows, ?_, by rw [hqp, hdelivery]⟩
  rw [hnames, Relation.names, hcolumns, List.map_map]
  rfl

theorem readAll_rows (hc : catalog name = some x.relation) {r : Relation}
    (h : (Query.readAll name columns).eval? catalog = some r) : ∃ rows : List (List Datum),
      x.relation.numberedRows = .ofRows rows ∧
        r.names = (columns.map fun c => Item.mk (.bare c) none).map
          (·.resultName (Scope.ofNumbered name x.relation)) ∧
        r.toDelivery = .ofRows ((readAllSelect name columns).plainRows
          (Scope.ofNumbered name x.relation) rows) := by
  obtain ⟨q, rows, hq, hrows⟩ := readAll_eval? columns hc
  obtain rfl := Option.some.inj (hq.symm.trans h)
  exact ⟨rows, hrows⟩

end Sql

namespace Database

variable {db : Database} {name : String} {columns : List String} {x : StoredTable} {r : Relation}

/-- **A table is read with all its rows.** The table of cells that is had has one for each of them. -/
theorem rowCount_readAll (hn : isListingName name = false) (hx : db.table? name = some x)
    (h : db.query? (.readAll name columns) = some r) {t : Table}
    (ht : Table.ofColumns r.toColumns = .ok t) : t.rowCount = x.rows.length := by
  rw [query?] at h
  split at h
  · rename_i hacc
    have hne : columns ≠ [] := by
      rintro rfl
      simp [Query.isAccepted, Query.readAll, isFitCompound, Select.hasFitWidth] at hacc
    have hknown : db.catalog (.readAll name columns) name = some x.relation :=
      relationWith?_of_table? _ hn hx
    obtain ⟨rows, hrows, hnames, hdelivery⟩ := readAll_rows hknown h
    have hwidth : r.columns.length = columns.length := by
      simpa [Relation.names] using congrArg List.length hnames
    obtain ⟨rows', hrows', hlen⟩ := numberedRows_relation x
    rw [hrows, Delivery.ofRows, Delivery.ofRows, Delivery.mk.injEq] at hrows'
    have hrowsLength : r.rows.length = x.rows.length := by
      rw [hdelivery, Delivery.rows_ofRows, length_plainRows rfl rfl, hrows'.1, hlen]
    obtain ⟨_, -, ht⟩ := bind_eq_ok.1 ht
    cases ht
    rw [Table.rowCount, Relation.toColumns]
    cases hcolumns : r.columns with
    | nil =>
      rw [hcolumns] at hwidth
      exact absurd (List.length_eq_zero_iff.1 hwidth.symm) hne
    | cons c rest => simpa [List.zipIdx_cons] using hrowsLength
  · cases h

end Database
end LazyQuery
