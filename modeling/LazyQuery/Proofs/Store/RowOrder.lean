import LazyQuery.Proofs.Sql.StoredEquality
import LazyQuery.Proofs.Store.Files
import LazyQuery.Proofs.Store.Loading
import LazyQuery.Proofs.Store.Regular

/-!
# The order in which a table is read back

A table that is loaded and read back has its rows whole, with the cells that its columns keep
(`Table.keptIn`). They come as they were loaded unless a column is called `rowid`: the query that reads
them sorts by that column then, and not by the numbers of the rows (`Store.readTable_loaded`).

* `StoredTable.take_order_iff` says when the rows of a stored table come in their own order.
* `StoredTable.IsLoaded.ascends_iff` says the same of the table that was loaded into it.
-/

set_option autoImplicit false

namespace LazyQuery

open Sql

namespace Table

/-- The table as columns that are declared for a schema keep it. -/
def keptIn (t : Table) (s : Schema) : Table :=
  ⟨List.zipWith (fun c f => ⟨c.name, c.values.map fun v => (kept f.type v).toScalar⟩) t.columns s.fields⟩

/-- A column that is called `rowid`, if there is one, keeps values that ascend from row to row. -/
def RowidAscends (t : Table) (s : Schema) : Prop :=
  ∀ p ∈ t.columns.zip s.fields, sameName p.1.name "rowid" = true →
    (p.1.values.map (kept p.2.type)).Pairwise fun a b => a.compare b ≠ .gt

/-- If a column is called `rowid`, rows are in the order of what it keeps, and those with the same value in
their own order. -/
def SortedByRowid (t : Table) (s : Schema) (order : List Nat) : Prop :=
  ∀ p ∈ t.columns.zip s.fields, sameName p.1.name "rowid" = true → order.Pairwise fun i j =>
    let o := (kept p.2.type (p.1.values.getD i .null)).compare (kept p.2.type (p.1.values.getD j .null))
    o = .lt ∨ o = .eq ∧ i < j

/-- Columns and fields of one place have one name. -/
theorem name_field {t : Table} {s : Schema} (hs : s.names = t.names) {j : Nat} {c : Column} {f : Field}
    (hc : t.columns[j]? = some c) (hf : s.fields[j]? = some f) : f.name = c.name := by
  simpa [Schema.names, names, hc, hf] using congrArg (·[j]?) hs

end Table

namespace StoredTable

variable {x : StoredTable} {t : Table} {s : Schema}

/-! ## Stored tables -/

/-- **Rows are read in their own order** just if what `rowid` is taken for ascends from row to row. -/
theorem take_order_iff (h : x.IsLegible) (hne : x.columns ≠ []) (hn : x.rows.length < 2 ^ 63) :
    x.toTable.take x.order = x.toTable ↔ x.Ascends := by
  have hwhole : x.toTable.take (List.range x.rows.length) = x.toTable := by
    rw [← rowCount_toTable hne]
    exact Table.take_range (valid_toTable h).1
  constructor
  · intro heq
    cases hk : x.numberColumn? with
    | none => exact ascends_of_numberColumn? hk hn
    | some k =>
      -- The column that the rows are sorted by is the same before and after, so it was sorted before.
      have hlt : k < x.columns.length := (List.findIdx?_eq_some_iff_getElem.1 hk).1
      have hnumber (i : Nat) : (x.rows.getD i []).getD k .null = x.number i := by rw [number, hk]
      have hcolumn := congrArg (·.columns[k]?) (heq.trans hwhole.symm)
      simp only [take_toTable, List.getElem?_mapIdx, List.getElem?_eq_getElem hlt, Option.map_some,
        Option.some.injEq, Column.mk.injEq, true_and, List.map_map] at hcolumn
      have hsame : x.order.map x.number = (List.range x.rows.length).map x.number := by
        refine List.map_injective_iff.2 (fun _ _ => Datum.toScalar_inj.1) ?_
        rw [List.map_map, List.map_map]
        simpa only [Function.comp_def, hnumber] using hcolumn
      have hsorted : ((List.range x.rows.length).map x.number).Pairwise fun a b => a.compare b ≠ .gt := by
        rw [← hsame, List.pairwise_map]
        refine x.pairwise_order.imp ?_
        rintro i j (hij | ⟨hij, -⟩) <;> rw [hij] <;> exact Ordering.noConfusion
      exact List.pairwise_map.1 hsorted
  · intro hasc
    rw [hasc.order_eq, hwhole]

/-! ## Tables that have been loaded -/

namespace IsLoaded

theorem isLegible (h : x.IsLoaded t s) (hapart : Database.repeatsName s.names = false) :
    x.IsLegible where
  apart := h.names ▸ Database.repeatsName_eq_false.1 hapart
  width row hrow := by
    rw [h.rows] at hrow
    obtain ⟨r, hr, rfl⟩ := List.mem_map.1 hrow
    obtain ⟨i, -, rfl⟩ := List.mem_map.1 hr
    rw [keptRow, List.length_zipWith, List.length_map, Table.row, List.length_map, h.width, h.columns,
      List.length_map, Nat.min_self]

theorem columns_ne (h : x.IsLoaded t s) : x.columns ≠ [] := by
  rw [h.columns, Ne, List.map_eq_nil_iff]
  exact h.nonempty

/-- A cell of a table that has been loaded is what its column keeps of it. -/
theorem getD_rows (h : x.IsLoaded t s) {i j : Nat} (hi : i < t.rowCount) {c : Column} {f : Field}
    (hc : t.columns[j]? = some c) (hf : s.fields[j]? = some f) :
    (x.rows.getD i []).getD j .null = kept f.type (c.values.getD i .null) := by
  have hcolumn : x.columns[j]? = some (f.name, declaredAffinity f.type) := by
    rw [h.columns, List.getElem?_map, hf, Option.map_some]
  have hrow : x.rows.getD i [] = x.keptRow ((t.row i).map Datum.ofScalar) := by
    rw [h.rows, Table.rows, List.map_map]
    simp [hi]
  rw [hrow, keptRow, List.getD_eq_getElem?_getD, List.getElem?_zipWith, hcolumn, List.getElem?_map,
    Table.row, List.getElem?_map, hc]
  rfl

/-- **A table that has been loaded** is what its columns keep of it. -/
theorem toTable_kept (h : x.IsLoaded t s) (ht : t.Valid) (hs : s.names = t.names) :
    x.toTable = t.keptIn s := by
  have hwidth : x.columns.length = s.fields.length := by rw [h.columns, List.length_map]
  rw [StoredTable.toTable_eq, Table.keptIn, Table.mk.injEq]
  refine List.ext_getElem (by simp [hwidth, h.width]) fun j hj hj' => ?_
  rw [List.length_zipWith, h.width, Nat.min_self] at hj'
  have hjc : j < t.columns.length := h.width ▸ hj'
  have hname := Table.name_field hs (List.getElem?_eq_getElem hjc) (List.getElem?_eq_getElem hj')
  simp only [List.getElem_mapIdx, List.getElem_zipWith, Column.mk.injEq]
  refine ⟨by simpa [h.columns] using hname, List.ext_getElem ?_ fun i hi hi' => ?_⟩
  · rw [List.length_map, List.length_map, h.rows_length, ht.1 _ (List.getElem_mem hjc)]
  · rw [List.length_map] at hi hi'
    have := h.getD_rows (h.rows_length ▸ hi) (List.getElem?_eq_getElem hjc) (List.getElem?_eq_getElem hj')
    rw [List.getD_eq_getElem _ _ hi, List.getD_eq_getElem _ _ hi'] at this
    rw [List.getElem_map, List.getElem_map, this]

/-- `rowid` is taken for the column of that name. -/
theorem numberColumn?_eq (h : x.IsLoaded t s) (hapart : Database.repeatsName s.names = false) {j : Nat}
    {f : Field} (hf : s.fields[j]? = some f) (hname : sameName f.name "rowid" = true) :
    x.numberColumn? = some j := by
  obtain ⟨hj, rfl⟩ := List.getElem?_eq_some_iff.1 hf
  have hcolumn {i : Nat} (hx : i < x.columns.length) (hi : i < s.names.length) :
      x.columns[i].1 = s.names[i] := by simp [h.columns, Schema.names]
  have hj' : j < s.names.length := by rwa [Schema.names, List.length_map]
  have hnames : s.names[j] = s.fields[j].name := List.getElem_map _
  have hx : j < x.columns.length := by rwa [h.columns, List.length_map]
  rw [numberColumn?, List.findIdx?_eq_some_iff_getElem]
  refine ⟨hx, by rw [hcolumn hx hj', hnames, hname], fun i hi => ?_⟩
  have hi' := Nat.lt_trans hi hj'
  have hne := List.pairwise_iff_getElem.1 (Database.repeatsName_eq_false.1 hapart) i j hi' hj' hi
  rw [hcolumn (Nat.lt_trans hi hx) hi', Bool.not_eq_true, ← hne, hnames,
    sameName_comm _ s.fields[j].name, sameName_congr hname, sameName_comm]

theorem number_eq (h : x.IsLoaded t s) (hs : s.names = t.names)
    (hapart : Database.repeatsName s.names = false) {p : Column × Field}
    (hp : p ∈ t.columns.zip s.fields) (hname : sameName p.1.name "rowid" = true) {i : Nat}
    (hi : i < t.rowCount) : x.number i = kept p.2.type (p.1.values.getD i .null) := by
  obtain ⟨j, hj⟩ := List.mem_iff_getElem?.1 hp
  obtain ⟨hc, hf⟩ := List.getElem?_zip_eq_some.1 hj
  rw [number, h.numberColumn?_eq hapart hf ((Table.name_field hs hc hf).symm ▸ hname)]
  exact h.getD_rows hi hc hf

/-- If no column is called `rowid`, it is taken for the number of a row. -/
theorem numberColumn?_eq_none (h : x.IsLoaded t s) (hs : s.names = t.names)
    (hno : ∀ p ∈ t.columns.zip s.fields, sameName p.1.name "rowid" = false) :
    x.numberColumn? = none := by
  rw [numberColumn?, List.findIdx?_eq_none_iff]
  intro c hc
  obtain ⟨f, hf, rfl⟩ := List.mem_map.1 (h.columns ▸ hc)
  obtain ⟨j, hj, rfl⟩ := List.getElem_of_mem hf
  have hjc : j < t.columns.length := h.width ▸ hj
  rw [Table.name_field hs (List.getElem?_eq_getElem hjc) (List.getElem?_eq_getElem hj)]
  exact hno (t.columns[j], s.fields[j]) (List.mem_iff_getElem?.2 ⟨j, by simp [hj, hjc]⟩)

/-- **What `rowid` is taken for ascends** just if a column of that name does. -/
theorem ascends_iff (h : x.IsLoaded t s) (ht : t.Valid) (hs : s.names = t.names)
    (hapart : Database.repeatsName s.names = false) (hn : t.rowCount < 2 ^ 63) :
    x.Ascends ↔ t.RowidAscends s := by
  have hiff {p : Column × Field} (hp : p ∈ t.columns.zip s.fields)
      (hname : sameName p.1.name "rowid" = true) :
      x.Ascends ↔ (p.1.values.map (kept p.2.type)).Pairwise fun a b => a.compare b ≠ .gt := by
    have hcells : p.1.values.map (kept p.2.type) = (List.range x.rows.length).map x.number := by
      have hlength : p.1.values.length = x.rows.length := by
        rw [h.rows_length, ht.1 _ (List.of_mem_zip hp).1]
      refine List.ext_getElem (by simp [hlength]) fun i hi hi' => ?_
      rw [List.length_map] at hi
      rw [List.getElem_map, List.getElem_map, List.getElem_range,
        h.number_eq hs hapart hp hname (h.rows_length ▸ hlength ▸ hi), List.getD_eq_getElem _ _ hi]
    rw [hcells, List.pairwise_map, Ascends]
  constructor
  · exact fun hasc p hp hname => (hiff hp hname).1 hasc
  · intro hasc
    by_cases hno : ∀ p ∈ t.columns.zip s.fields, sameName p.1.name "rowid" = false
    · exact ascends_of_numberColumn? (h.numberColumn?_eq_none hs hno) (h.rows_length ▸ hn)
    · obtain ⟨p, hp, hname⟩ := by simpa only [not_forall, Bool.not_eq_false] using hno
      exact (hiff hp hname).2 (hasc p hp hname)

/-- Rows are sorted by the column that is called `rowid`, if there is one. -/
theorem sortedByRowid (h : x.IsLoaded t s) (hs : s.names = t.names)
    (hapart : Database.repeatsName s.names = false) : t.SortedByRowid s x.order := by
  intro p hp hname
  have hmem {i : Nat} (hi : i ∈ x.order) : i < t.rowCount :=
    h.rows_length ▸ List.mem_range.1 (x.perm_order.mem_iff.1 hi)
  refine x.pairwise_order.imp_of_mem fun hi hj hij => ?_
  rwa [h.number_eq hs hapart hp hname (hmem hi), h.number_eq hs hapart hp hname (hmem hj)] at hij

end IsLoaded
end StoredTable

/-! ## Loading and reading -/

namespace Store

variable {m : Mounted} {name : String} {t : Table} {s : Schema} {y : StoredTable}

/-- **A table is read sorted by what `rowid` is taken for.** -/
theorem readTable_legible (hy : m.table? name = some y) (h : y.IsLegible)
    (hn : Database.isListingName name = false) (hne : y.columns ≠ []) (hroom : y.columns.length ≤ columnRoom)
    (hname : Database.cutsOff [name] = false) (hcolumns : Database.cutsOff (y.columns.map (·.1)) = false) :
    ∃ m', readTable name (y.columns.map (·.1)) m = .ok (y.toTable.take y.order) m' := by
  obtain ⟨c, hc, hy⟩ := Option.bind_eq_some_iff.1 hy
  obtain ⟨r, hr, hcells⟩ := Database.query?_legible hn hy h hne hroom hname hcolumns
  have hvalid : Table.ofColumns r.toColumns = .ok (y.toTable.take y.order) := by
    rw [Table.ofColumns_eq_ok]
    refine ⟨hcells.symm, Table.level_take _ _, ?_⟩
    rw [Table.names_take]
    exact (StoredTable.valid_toTable h).2
  have hread : Ends (readTable name (y.columns.map (·.1))) m (fun u _ => u = y.toTable.take y.order)
      fun _ _ => False := by
    rw [readTable, ends_bind, query, ends_bind, ends_reading, hc]
    dsimp only
    rw [hr]
    dsimp only
    rw [hvalid]
    rfl
  obtain ⟨_, m', hm', rfl⟩ := hread.exists_ok
  exact ⟨m', hm'⟩

/-- **A table that is loaded and read back keeps its rows together**, but not their order where a column
is called `rowid`. Tables can be loaded if there can be one of the name, and if columns of so many and
such names can be declared. They are read back with the cells that their columns keep, sorted by a column
that is called `rowid`; so the rows come in the order in which they were loaded just if there is no such
column, or its values happen to ascend. -/
theorem readTable_loaded (name : String) (hv : m.Valid) (ht : t.Valid) (hne : t.columns ≠ [])
    (hs : s.names = t.names) (hapart : t.names.Pairwise fun a b => sameName a b = false)
    (hn : t.rowCount < 2 ^ 63) :
    ((∃ m', bulkLoad name t s m = .ok ⟨⟩ m') ↔
        m.Takes name ∧ t.columns.length ≤ columnRoom ∧ Database.cutsOff t.names = false) ∧
      ∀ m', bulkLoad name t s m = .ok ⟨⟩ m' → ∃ order m'',
        readTable name t.names m' = .ok ((t.keptIn s).take order) m'' ∧
          order.Perm (List.range t.rowCount) ∧ t.SortedByRowid s order ∧
            ((t.keptIn s).take order = t.keptIn s ↔ t.RowidAscends s) := by
  have hwidth : t.columns.length = s.fields.length := by
    simpa [Table.names, Schema.names] using congrArg List.length hs.symm
  have hrepeats : Database.repeatsName s.names = false := hs ▸ Database.repeatsName_eq_false.2 hapart
  have hok : (∃ m', bulkLoad name t s m = .ok ⟨⟩ m') ↔ m.Takes name ∧ s.IsCreatable :=
    bulkLoad_ok_iff hv hwidth
  constructor
  · rw [hok]
    refine and_congr_right fun _ => ⟨fun h => ⟨hwidth ▸ h.room, hs ▸ h.whole⟩, ?_⟩
    rintro ⟨hroom, hwhole⟩
    have hfields : s.fields ≠ [] := fun h => hne (List.length_eq_zero_iff.1 (by rw [hwidth, h]; rfl))
    exact ⟨hfields, hwidth ▸ hroom, hrepeats, hs ▸ hwhole⟩
  · intro m' hload
    obtain ⟨htakes, hcreatable⟩ := hok.1 ⟨m', hload⟩
    obtain ⟨-, y, hy, hloaded⟩ := (bulkLoad_ends hv).of_ok hload
    have hlegible := hloaded.isLegible hrepeats
    obtain ⟨m'', hread⟩ := readTable_legible hy hlegible htakes.allowed.isListingName hloaded.columns_ne
      (by rw [hloaded.columns, List.length_map]; exact hcreatable.room) htakes.allowed.whole
      (hloaded.names ▸ hcreatable.whole)
    rw [hloaded.names, hs, hloaded.toTable_kept ht hs] at hread
    refine ⟨y.order, m'', hread, hloaded.rows_length ▸ y.perm_order, hloaded.sortedByRowid hs hrepeats, ?_⟩
    rw [← hloaded.toTable_kept ht hs, StoredTable.take_order_iff hlegible hloaded.columns_ne
      (hloaded.rows_length ▸ hn), hloaded.ascends_iff ht hs hrepeats hn]

theorem readTable_loaded_descending : ∃ (m m' m'' : Mounted) (u : Table),
    bulkLoad "t" ⟨[⟨"rowid", [.int 2, .int 1]⟩, ⟨"v", [.text "a", .text "b"]⟩]⟩
      ⟨[⟨"rowid", .int64, false⟩, ⟨"v", .utf8, false⟩]⟩ m = .ok ⟨⟩ m' ∧
    readTable "t" ["rowid", "v"] m' = .ok u m'' ∧
      u ≠ ⟨[⟨"rowid", [.int 2, .int 1]⟩, ⟨"v", [.text "a", .text "b"]⟩]⟩ := by
  obtain ⟨m, hm, htakes⟩ : ∃ m, openAt .empty none = .ok m ∧ m.Takes "t" :=
    ⟨_, rfl, rfl, rfl, by decide, by decide, by decide⟩
  obtain ⟨hok, hread⟩ := readTable_loaded "t" (openAt_spec Disk.valid_empty hm).2.1
    (t := ⟨[⟨"rowid", [.int 2, .int 1]⟩, ⟨"v", [.text "a", .text "b"]⟩]⟩) ⟨by decide, by decide⟩
    (by decide) (s := ⟨[⟨"rowid", .int64, false⟩, ⟨"v", .utf8, false⟩]⟩) (by decide) (by decide)
    (by decide)
  obtain ⟨m', hload⟩ := hok.2 ⟨htakes, by decide, by decide⟩
  obtain ⟨order, m'', hread, -, -, hiff⟩ := hread m' hload
  refine ⟨m, m', m'', _, hload, hread, fun heq => ?_⟩
  have := hiff.1 (heq.trans rfl)
  exact absurd this (by unfold Table.RowidAscends; decide)

end Store
end LazyQuery
