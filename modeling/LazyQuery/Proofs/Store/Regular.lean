import LazyQuery.Proofs.Sql.Quoting
import LazyQuery.Proofs.Sql.StoredOrder
import LazyQuery.Proofs.Store.Reading
import LazyQuery.Proofs.Table.Sorting

/-!
# Reading tables whose columns are told apart

The query that reads all columns of a table sorts its rows by what it takes `rowid` for: a column of that
name, or else the number of the row. Apart from this order it yields the table as it is
(`readAll_sorted`), if its columns are told apart and its rows are as wide as it is
(`StoredTable.IsLegible`).

A table is *regular* if moreover no column is called `rowid`. Then its rows come in their own order
(`Database.query?_regular`).
-/

set_option autoImplicit false

namespace LazyQuery

open Sql
open scoped Numbers

/-- The columns of the table are told apart, and its rows are as wide as it is. -/
structure StoredTable.IsLegible (x : StoredTable) : Prop where
  apart : (x.columns.map (·.1)).Pairwise fun a b => sameName a b = false
  width : ∀ row ∈ x.rows, row.length = x.columns.length

/-- The columns of the table are told apart, from the number of a row as well, and its rows are as wide
as it is. -/
structure StoredTable.IsRegular (x : StoredTable) : Prop where
  apart : (x.columns.map (·.1)).Pairwise fun a b => sameName a b = false
  unnumbered : ∀ c ∈ x.columns, sameName c.1 "rowid" = false
  width : ∀ row ∈ x.rows, row.length = x.columns.length
  countable : x.rows.length < 2 ^ 63

namespace StoredTable

variable {x : StoredTable}

theorem IsRegular.isLegible (h : x.IsRegular) : x.IsLegible := ⟨h.apart, h.width⟩

/-- The column that `rowid` is taken for, if there is one. -/
def numberColumn? (x : StoredTable) : Option Nat := x.columns.findIdx? fun c => sameName c.1 "rowid"

/-- What `rowid` is taken for in a row: the value of the column of that name, or the number of the row. -/
def number (x : StoredTable) (i : Nat) : Datum :=
  match x.numberColumn? with
  | some k => (x.rows.getD i []).getD k .null
  | none => .integer (Int64.ofNat (i + 1))

theorem IsRegular.numberColumn? (h : x.IsRegular) : x.numberColumn? = none :=
  List.findIdx?_eq_none_iff.2 h.unnumbered

/-- Rows are numbered in their order, as long as there are numbers for them. -/
theorem compare_number (h : x.numberColumn? = none) {n i j : Nat} (hn : n < 2 ^ 63) (hij : i < j)
    (hj : j < n) : (x.number i).compare (x.number j) = .lt := by
  have toInt {k : Nat} (hk : k < n) : (Int64.ofNat (k + 1)).toInt = k + 1 :=
    Int64.toInt_ofNat_of_lt (by omega)
  have hcmp : (x.number i).compare (x.number j) =
      Ord.compare (Int64.ofNat (i + 1)).toInt (Int64.ofNat (j + 1)).toInt := by
    rw [number, number, h]
    rfl
  rw [hcmp, toInt (Nat.lt_trans hij hj), toInt hj, Int.compare_eq_lt]
  omega

/-- The numbers of the rows, sorted by what `rowid` is taken for. -/
def order (x : StoredTable) : List Nat :=
  (List.range x.rows.length).mergeSort fun i j => (x.number i).compare (x.number j) != .gt

theorem perm_order (x : StoredTable) : x.order.Perm (List.range x.rows.length) :=
  List.mergeSort_perm _ _

instance (x : StoredTable) : Std.TransCmp fun i j => (x.number i).compare (x.number j) where
  eq_swap := Std.OrientedCmp.eq_swap
  isLE_trans := Std.TransCmp.isLE_trans

/-- The order of the rows, ties included. -/
theorem pairwise_order (x : StoredTable) : x.order.Pairwise fun i j =>
    (x.number i).compare (x.number j) = .lt ∨ (x.number i).compare (x.number j) = .eq ∧ i < j :=
  pairwise_sortRange (fun i j => (x.number i).compare (x.number j)) x.rows.length

/-- What `rowid` is taken for ascends from row to row. -/
def Ascends (x : StoredTable) : Prop :=
  (List.range x.rows.length).Pairwise fun i j => (x.number i).compare (x.number j) ≠ .gt

theorem ascends_of_numberColumn? (h : x.numberColumn? = none) (hn : x.rows.length < 2 ^ 63) :
    x.Ascends := by
  refine List.pairwise_lt_range.imp_of_mem fun _ hj hij => ?_
  rw [compare_number h hn hij (List.mem_range.1 hj)]
  exact Ordering.noConfusion

theorem Ascends.order_eq (h : x.Ascends) : x.order = List.range x.rows.length :=
  List.mergeSort_of_pairwise (h.imp fun hij => bne_iff_ne.2 hij)

theorem IsRegular.order_eq (h : x.IsRegular) : x.order = List.range x.rows.length :=
  (ascends_of_numberColumn? h.numberColumn? h.countable).order_eq

end StoredTable

namespace Sql

variable {catalog : Catalog} {name : String} {columns : List String} {x : StoredTable} {r : Relation}

theorem bindings_columns (name : String) (x : StoredTable) : Scope.ofNumbered name x.relation =
    (x.columns.map fun c => ⟨name, ⟨c.1, c.2, false⟩, false⟩) ++
      [⟨name, ⟨"rowid", .integer, false⟩, true⟩] := by
  simp [Scope.ofNumbered, Scope.ofRelation, StoredTable.relation, Relation.numbered, Relation.ofTable,
    Function.comp_def]

/-- A column is found under its name, among those that pass a test that all of them pass. -/
theorem indexWhere?_column {test : Binding → Bool} (htest : ∀ h, test ⟨name, h, false⟩ = true)
    (hx : x.IsLegible) {j : Nat} (hj : j < x.columns.length) :
    (Scope.ofNumbered name x.relation).indexWhere? test x.columns[j].1 = some j := by
  have hfound : (x.columns.map fun c => Binding.mk name ⟨c.1, c.2, false⟩ false).findIdx? (fun b =>
      !b.isNumber && test b && sameName b.heading.name x.columns[j].1) = some j := by
    rw [List.findIdx?_eq_some_iff_getElem]
    refine ⟨by simpa using hj, by simp [htest], fun i hi => ?_⟩
    have := List.pairwise_iff_getElem.1 hx.apart i j (by simpa using Nat.lt_trans hi hj)
      (by simpa using hj) hi
    simpa [htest] using this
  rw [bindings_columns, Scope.indexWhere?, List.findIdx?_append, hfound]
  rfl

theorem bareIndex?_column (hx : x.IsLegible) {j : Nat} (hj : j < x.columns.length) :
    (Scope.ofNumbered name x.relation).bareIndex? x.columns[j].1 = some j :=
  indexWhere?_column (fun _ => rfl) hx hj

theorem index?_column (hx : x.IsLegible) {j : Nat} (hj : j < x.columns.length) :
    (Scope.ofNumbered name x.relation).index? name x.columns[j].1 = some j :=
  indexWhere?_column (fun _ => sameName_self name) hx hj

/-- A column called `rowid` is found under that name, or else the number of a row behind its columns. -/
theorem bareIndex?_rowid (name : String) (x : StoredTable) :
    (Scope.ofNumbered name x.relation).bareIndex? "rowid" =
      some (x.numberColumn?.getD x.columns.length) := by
  have hcolumns : (x.columns.map fun c => Binding.mk name ⟨c.1, c.2, false⟩ false).findIdx? (fun b =>
      !b.isNumber && true && sameName b.heading.name "rowid") = x.numberColumn? := by
    rw [List.findIdx?_map]
    rfl
  have hnumber : (x.columns.map fun c => Binding.mk name ⟨c.1, c.2, false⟩ false).findIdx? (fun b =>
      b.isNumber && true) = none := by
    rw [List.findIdx?_eq_none_iff, List.forall_mem_map]
    exact fun c hc => rfl
  rw [bindings_columns, Scope.bareIndex?, Scope.indexWhere?, List.findIdx?_append, List.findIdx?_append,
    hcolumns, hnumber, List.length_map]
  cases x.numberColumn? with
  | some k => rfl
  | none =>
    change (if Scope.isNumberName "rowid" = true then some (0 + x.columns.length) else none) = _
    rw [if_pos (by decide), Nat.zero_add]
    rfl

/-- A row of a table with its number behind it. -/
def numberedRow (row : List Datum) (i : Nat) : List Datum := row ++ [.integer (Int64.ofNat (i + 1))]

theorem numberedRows_eq (x : StoredTable) : x.relation.numberedRows =
    .ofRows ((List.range x.rows.length).map fun i => numberedRow (x.rows.getD i []) i) := by
  refine congrArg Delivery.ofRows (List.ext_getElem ?_ fun i hi hi' => ?_)
  · simp [StoredTable.relation, Relation.numbered, Relation.ofTable, Delivery.ofRows]
  · have hlt : i < x.rows.length := by simpa using hi'
    simp [StoredTable.relation, Relation.numbered, Relation.ofTable, Delivery.ofRows, numberedRow, hlt]

theorem eval_rowid (hx : x.IsLegible) {i : Nat} (hi : i < x.rows.length) :
    Expr.rowid.eval (Scope.ofNumbered name x.relation) (numberedRow (x.rows.getD i []) i) =
      x.number i := by
  have hget : x.rows.getD i [] = x.rows[i] := by simp [hi]
  have hrow : x.rows[i].length = x.columns.length := hx.width _ (List.getElem_mem hi)
  rw [Expr.eval, bareIndex?_rowid, Option.bind_some, StoredTable.number, numberedRow, hget]
  cases hk : x.numberColumn? with
  | some k =>
    have hlt : k < x.rows[i].length := hrow.symm ▸ (List.findIdx?_eq_some_iff_getElem.1 hk).1
    rw [Option.getD_some, List.getElem?_append_left hlt]
    simp
  | none =>
    rw [Option.getD_none, ← hrow, List.getElem?_concat_length]
    rfl

theorem eval_columns (hx : x.IsLegible) {row : List Datum} (hrow : row.length = x.columns.length)
    (i : Nat) : (x.columns.map fun c => (Expr.bare c.1).eval (Scope.ofNumbered name x.relation)
      (numberedRow row i)) = row := by
  refine List.ext_getElem (by rw [List.length_map, hrow]) fun j hj hj' => ?_
  rw [List.getElem_map, Expr.eval, bareIndex?_column hx (hrow ▸ hj')]
  simp [numberedRow, List.getElem?_append_left hj', List.getElem?_eq_getElem hj']

/-- **What is read of a table is the table, sorted**: its columns as they are, and its rows in the order
of what `rowid` is taken for. -/
theorem readAll_sorted (hc : catalog name = some x.relation) (hx : x.IsLegible)
    (hr : (Query.readAll name (x.columns.map (·.1))).eval? catalog = some r) :
    r.names = x.columns.map (·.1) ∧ r.rows = x.order.map (x.rows.getD · []) := by
  obtain ⟨rows, hrows, hnames, hdelivery⟩ := readAll_rows hc hr
  obtain rfl : rows = (List.range x.rows.length).map fun i => numberedRow (x.rows.getD i []) i :=
    congrArg Delivery.rows (hrows.symm.trans (numberedRows_eq x))
  constructor
  · rw [hnames, List.map_map, List.map_map]
    refine List.ext_getElem (by simp) fun j hj hj' => ?_
    rw [List.length_map] at hj'
    have hb : (Scope.ofNumbered name x.relation)[j]? =
        some ⟨name, ⟨x.columns[j].1, x.columns[j].2, false⟩, false⟩ := by
      rw [bindings_columns, List.getElem?_append_left (by simpa using hj')]
      simp [hj']
    simp only [List.getElem_map, Function.comp, Item.resultName, bareIndex?_column hx hj',
      Option.bind_some, hb]
  · rw [show r.rows = _ from congrArg Delivery.rows hdelivery]
    change Select.plainRows _ _ _ = _
    refine Select.plainRows_mergeSort rfl rfl (List.cons_ne_nil _ _) (fun i hi j hj => ?_) fun i hi => ?_
    · rw [readAllSelect, List.map_singleton, List.map_singleton, eval_rowid hx hi, eval_rowid hx hj,
        Select.compareKeys]
      cases (x.number i).compare (x.number j) <;> rfl
    · change ((List.map _ (x.columns.map (·.1))).map fun it => _) = _
      rw [List.map_map, List.map_map]
      refine eval_columns hx ?_ i
      rw [List.getD_eq_getElem _ _ hi]
      exact hx.width _ (List.getElem_mem hi)

/-- **What is read of a regular table is the table**: its columns, and its rows in their order. -/
theorem readAll_regular (hc : catalog name = some x.relation) (hx : x.IsRegular)
    (hr : (Query.readAll name (x.columns.map (·.1))).eval? catalog = some r) :
    r.names = x.columns.map (·.1) ∧ r.rows = x.rows := by
  obtain ⟨hnames, hrows⟩ := readAll_sorted hc hx.isLegible hr
  refine ⟨hnames, ?_⟩
  rw [hrows, hx.order_eq]
  exact List.ext_getElem (by simp) fun i hi hi' => by simp [hi']

/-! ## Queries that are accepted -/

theorem greatest_le {ns : List Nat} {m : Nat} (h : ∀ n ∈ ns, n ≤ m) : greatest ns ≤ m := by
  have steps (acc : Nat) (hacc : acc ≤ m) : ns.foldl max acc ≤ m := by
    induction ns generalizing acc with
    | nil => exact hacc
    | cons n rest ih =>
      rw [List.forall_mem_cons] at h
      exact ih h.2 _ (Nat.max_le.2 ⟨hacc, h.1⟩)
  exact steps 0 (Nat.zero_le m)

/-- The text of a name has its characters, and of those nothing is cut off. -/
theorem zero_notMem_ident {n : String} (hn : n.toList.contains '\x00' = false) :
    '\x00' ∉ (ident n).toList := by
  intro h
  rcases mem_ident.1 h with h | h
  · exact absurd h (by decide)
  · exact Bool.false_ne_true (hn.symm.trans (List.contains_iff_mem.2 h))

theorem zero_notMem_of_cutsOff {names : List String} (h : Database.cutsOff names = false) {n : String}
    (hn : n ∈ names) : '\x00' ∉ (ident n).toList :=
  zero_notMem_ident (Bool.eq_false_iff.2 (List.any_eq_false.1 h n hn))

namespace Select.IsScan

variable {s : Select}

/-- Of the text of a query of one table nothing is cut off, if that is so of its parts. -/
theorem zero_notMem_render (h : s.IsScan name) (hname : Database.cutsOff [name] = false)
    (hitems : ∀ i ∈ s.items, '\x00' ∉ i.render.toList)
    (hkeys : ∀ k ∈ s.orderBy, '\x00' ∉ k.render.toList) : '\x00' ∉ s.render.toList := by
  have hparts {parts : List String} (hp : ∀ p ∈ parts, '\x00' ∉ p.toList) :
      '\x00' ∉ (Text.commaSeparated parts).toList := by
    intro hc
    rcases mem_intercalate hc with hc | ⟨p, hmem, hc⟩
    · exact absurd hc (by decide)
    · exact hp p hmem hc
  have hlist {xs : List String} (hxs : ∀ y ∈ xs, '\x00' ∉ y.toList) :
      '\x00' ∉ (clause " ORDER BY " xs).toList := by
    cases xs with
    | nil => decide
    | cons y ys =>
      change '\x00' ∉ (" ORDER BY " ++ Text.commaSeparated (y :: ys)).toList
      rw [String.toList_append, List.mem_append, not_or]
      exact ⟨by decide, hparts hxs⟩
  have hlimit : '\x00' ∉ (match s.limit? with
      | some n => " LIMIT " ++ toString n
      | none => "").toList := by
    cases s.limit? with
    | none => decide
    | some k =>
      rw [String.toList_append, List.mem_append, not_or]
      refine ⟨by decide, fun hc => ?_⟩
      have hdigit : Char.isDigit '\x00' = true := toDigits_isDigit (n := k) (by simpa using hc)
      exact absurd hdigit (by decide)
  have htext : s.render = "SELECT " ++ "" ++ Text.commaSeparated (s.items.map Item.render) ++
      (" FROM " ++ ident name) ++ "" ++ "" ++ clause " ORDER BY " (s.orderBy.map SortKey.render) ++
        (match s.limit? with
        | some n => " LIMIT " ++ toString n
        | none => "") := by
    rw [render, h.distinct, h.input, h.condition, h.ungrouped]
    rfl
  rw [htext]
  simp only [String.toList_append, List.mem_append, not_or]
  refine ⟨⟨⟨⟨⟨⟨⟨by decide, by decide⟩, hparts (List.forall_mem_map.2 hitems)⟩, by decide,
    zero_notMem_of_cutsOff hname (List.mem_singleton_self name)⟩, by decide⟩, by decide⟩,
    hlist (List.forall_mem_map.2 hkeys)⟩, hlimit⟩

/-- **A query of one table is accepted**, if it has plain result columns, not too many of them, and no
text is cut off. -/
theorem isAccepted (h : s.IsScan name) (hzero : '\x00' ∉ s.render.toList)
    (hdepth : ∀ i ∈ s.items, i.expr.depth ≤ 4) (hne : s.items ≠ [])
    (hroom : s.items.length ≤ columnRoom) (horder : s.orderBy.length ≤ columnRoom) {below : Nat}
    (hbelow : below ≤ Query.belowCreateTable) : Query.isAccepted ⟨[], [s]⟩ below = true := by
  have hselect : Query.depth ⟨[], [s]⟩ ≤ 8 := by
    change max (max (greatest _) (s.condition?.elim 0 _)) (greatest []) ≤ 8
    rw [h.condition, Nat.max_le, Nat.max_le]
    refine ⟨⟨greatest_le (List.forall_mem_map.2 fun i hi => ?_), by decide⟩, by decide⟩
    rw [Nat.max_eq_right (hdepth i hi)]
  have hfit : isFitCompound [s] = true := by
    have hrows : s.hasFitWidth = true := by
      simp [hasFitWidth, h.input, h.ungrouped, hne, hroom, horder]
    rw [isFitCompound, List.all_cons, hrows, List.length_singleton]
    rfl
  have hroom' : below + Query.depth ⟨[], [s]⟩ ≤ stackRoom :=
    Nat.le_trans (Nat.add_le_add hbelow hselect) (by decide)
  have htext : (Query.render ⟨[], [s]⟩).toList.contains '\x00' = false := by
    rw [Bool.eq_false_iff, Ne, List.contains_iff_mem, Query.render]
    change ¬ '\x00' ∈ (" UNION ALL ".intercalate [s.render]).toList
    rwa [String.intercalate_singleton]
  rw [Query.isAccepted, htext, hfit, decide_eq_true hroom']
  rfl

end Select.IsScan

/-- **A query that reads columns of a table is accepted**, if there are columns, not too many of them,
and no name is cut off. -/
theorem isAccepted_readAll (hname : Database.cutsOff [name] = false)
    (hcolumns : Database.cutsOff columns = false) (hne : columns ≠ [])
    (hroom : columns.length ≤ columnRoom) : (Query.readAll name columns).isAccepted 0 = true := by
  have scan := readAllSelect_isScan name columns
  refine scan.isAccepted (scan.zero_notMem_render hname (List.forall_mem_map.2 fun c hc => ?_) fun k hk => ?_)
    (List.forall_mem_map.2 fun c _ => ?_) (by simpa [readAllSelect, Select.ofInput] using hne)
    (by simpa [readAllSelect, Select.ofInput] using hroom) (show 1 ≤ columnRoom by decide) (Nat.zero_le _)
  · exact zero_notMem_of_cutsOff hcolumns hc
  · obtain rfl := List.mem_singleton.1 hk
    decide
  · exact (by decide : 1 ≤ 4)

end Sql

/-! ## Tables of cells -/

/-- Of the columns of a relation, only their names count for its table of cells. -/
theorem Sql.Relation.toColumns_names (r : Relation) : r.toColumns = r.names.zipIdx.map fun p =>
    ⟨p.1, r.rows.map fun row => ((row[p.2]?).getD .null).toScalar⟩ := by
  rw [names, List.zipIdx_map, List.map_map]
  rfl

namespace StoredTable

variable {x : StoredTable}

/-- What a table is as a table of cells. -/
def toTable (x : StoredTable) : Table := ⟨x.relation.toColumns⟩

theorem toTable_eq (x : StoredTable) : x.toTable = ⟨x.columns.mapIdx fun j c =>
    ⟨c.1, x.rows.map fun row => (row.getD j .null).toScalar⟩⟩ := by
  rw [toTable, Relation.toColumns, Table.mk.injEq]
  refine List.ext_getElem ?_ fun j hj hj' => ?_
  · simp [relation, Relation.numbered, Relation.ofTable]
  · simp [relation, Relation.numbered, Relation.ofTable, Delivery.ofRows]

theorem names_toTable (x : StoredTable) : x.toTable.names = x.columns.map (·.1) := by
  rw [toTable_eq, Table.names]
  exact List.ext_getElem (by simp) fun j hj hj' => by simp

theorem valid_toTable (h : x.IsLegible) : x.toTable.Valid := by
  constructor
  · have lengths : ∀ c ∈ x.toTable.columns, c.values.length = x.rows.length := by
      intro c hc
      rw [toTable_eq] at hc
      obtain ⟨j, hj, rfl⟩ := List.mem_mapIdx.1 hc
      exact List.length_map _
    intro c hc
    rw [lengths c hc, Table.rowCount]
    split
    · rename_i he
      rw [he] at hc
      cases hc
    · rename_i he
      exact (lengths _ (he ▸ List.mem_cons_self)).symm
  · rw [names_toTable]
    exact h.apart.imp fun {a b} hab e => by
      rw [e, sameName_self] at hab
      cases hab

theorem rowCount_toTable (hne : x.columns ≠ []) : x.toTable.rowCount = x.rows.length := by
  rw [toTable_eq, Table.rowCount]
  cases hc : x.columns with
  | nil => exact absurd hc hne
  | cons c rest => simp

/-- The rows of the numbers given, as a table of cells. -/
theorem take_toTable (x : StoredTable) (indices : List Nat) : x.toTable.take indices =
    ⟨x.columns.mapIdx fun j c => ⟨c.1, (indices.map (x.rows.getD · [])).map fun row =>
      (row.getD j .null).toScalar⟩⟩ := by
  rw [toTable_eq, Table.take, Table.mk.injEq]
  refine List.ext_getElem (by simp) fun j hj hj' => ?_
  simp only [List.getElem_map, List.getElem_mapIdx, List.map_map, Column.mk.injEq, true_and]
  refine List.map_congr_left fun i _ => ?_
  by_cases hi : i < x.rows.length
  · simp [hi]
  · simp [Nat.not_lt.1 hi, Datum.toScalar]

end StoredTable

namespace Database

variable {db : Database} {name : String} {x : StoredTable}

/-- **A table is read sorted by what `rowid` is taken for.** -/
theorem query?_legible (hn : isListingName name = false) (hx : db.table? name = some x)
    (h : x.IsLegible) (hne : x.columns ≠ []) (hroom : x.columns.length ≤ columnRoom)
    (hname : cutsOff [name] = false) (hcolumns : cutsOff (x.columns.map (·.1)) = false) :
    ∃ r, db.query? (.readAll name (x.columns.map (·.1))) = some r ∧
      ⟨r.toColumns⟩ = x.toTable.take x.order := by
  have hc : db.catalog (.readAll name (x.columns.map (·.1))) name = some x.relation :=
    relationWith?_of_table? _ hn hx
  obtain ⟨r, _, hr, -⟩ := readAll_eval? (x.columns.map (·.1)) hc
  have haccepted := isAccepted_readAll hname hcolumns (by simpa using hne) (by simpa using hroom)
  obtain ⟨hnames, hrows⟩ := readAll_sorted hc h hr
  refine ⟨r, by rw [query?, if_pos haccepted, hr], ?_⟩
  rw [StoredTable.take_toTable, Relation.toColumns_names, hnames, hrows, Table.mk.injEq]
  exact List.ext_getElem (by simp) fun j hj hj' => by simp

end Database
end LazyQuery
