import LazyQuery.Proofs.Sql.Select
import LazyQuery.Proofs.Table.Columns

/-!
# Operations on one table, in memory and as queries

Each operation that goes through one table row by row is done in two ways: by a function on tables,
and by a query over a relation that holds the table. The lemmas say that both succeed, and that the
relation that the query yields holds the table that the function yields.

`Select.Over.holds_simple` and its variants compare the two row by row: the query has no condition,
has one, leaves out repetitions, or sorts.
-/

set_option autoImplicit false

namespace LazyQuery

open Sql

namespace Sql

/-- The result columns of the query yield the given cells for each row of a table. -/
def Select.Yields (sel : Select) (table : String) (s : Schema) (t : Table)
    (cells : Nat → List Scalar) : Prop :=
  ∀ (scope : Scope) (row : List Datum) (i : Nat), i < t.rowCount → scope.Shows table s 0 →
    RowShows row s 0 (t.cell · i) →
      (sel.items.map fun it => it.expr.eval scope row) = (cells i).map Datum.ofScalar

namespace Select.Over

variable {sel : Select} {table : String} {s s' : Schema} {catalog : Catalog} {asked : Bool}
  {r : Relation} {t u : Table} {cells : Nat → List Scalar}

theorem holds_simple (asked : Bool) (h : sel.Over table s s'.fields) (hs : s.Apart) (hc : catalog table = some r)
    (hr : r.Holds t s) (ht : t.Conforms s) (hy : sel.Yields table s t cells)
    (hd : sel.distinct = false) (hcond : sel.condition? = none) (ho : sel.orderBy = [])
    (hu : u.rows = (List.range t.rowCount).map cells) :
    ∃ r', sel.eval? catalog asked = some r' ∧ r'.Holds u s' := by
  obtain ⟨r', scope, rowAt, hr', hh, hn, hrows, hshows, hrow⟩ := h.eval?_rows asked hs hc hr ht
  refine ⟨r', hr', .of_rows hh hn ?_⟩
  rw [hrows, hu, plainRows_simple hd hcond ho fun i hi => hy _ _ i hi hshows (hrow i)]

theorem holds_filter (asked : Bool) (h : sel.Over table s s'.fields) (hs : s.Apart) (hc : catalog table = some r)
    (hr : r.Holds t s) (ht : t.Conforms s) (hy : sel.Yields table s t cells)
    (hd : sel.distinct = false) {c : Expr} (hcond : sel.condition? = some c) (ho : sel.orderBy = [])
    {type : DataType} {value : Nat → Scalar} (hm : c.Means table s t type value)
    (htype : type.isIntegral = true)
    (hu : u.rows = ((List.range t.rowCount).filter fun i => (value i).truth? == some true).map cells) :
    ∃ r', sel.eval? catalog asked = some r' ∧ r'.Holds u s' := by
  obtain ⟨r', scope, rowAt, hr', hh, hn, hrows, hshows, hrow⟩ := h.eval?_rows asked hs hc hr ht
  refine ⟨r', hr', .of_rows hh hn ?_⟩
  rw [hrows, hu, plainRows_filter hd hcond ho (fun i hi => ?_) fun i hi => hy _ _ i hi hshows (hrow i)]
  rw [Expr.holds, hm.eval hi hshows (hrow i), truth?_ofScalar htype (hm.admits hi)]

theorem holds_distinct (asked : Bool) (h : sel.Over table s s'.fields) (hs : s.Apart) (hc : catalog table = some r)
    (hr : r.Holds t s) (ht : t.Conforms s) (hy : sel.Yields table s t cells)
    (hd : sel.distinct = true) (hcond : sel.condition? = none) (ho : sel.orderBy = [])
    (hp : ∀ i < t.rowCount, ∀ v ∈ cells i, v.isPlain = true) {width : Nat}
    (hw : ∀ i < t.rowCount, (cells i).length = width)
    (hu : u.rows = (firstPositions [] 0 ((List.range t.rowCount).map fun i =>
      Scalar.keyOf (cells i))).map cells) :
    ∃ r', sel.eval? catalog asked = some r' ∧ r'.Holds u s' := by
  obtain ⟨r', scope, rowAt, hr', hh, hn, hrows, hshows, hrow⟩ := h.eval?_rows asked hs hc hr ht
  refine ⟨r', hr', .of_rows hh hn ?_⟩
  rw [hrows, hu, plainRows_distinct hd hcond ho hp hw fun i hi => hy _ _ i hi hshows (hrow i)]

end Select.Over

/-! ## Columns -/

section Columns

variable {table : String} {s s' : Schema} {t : Table} {names : List String} {fields : List Field}

theorem fits_columnItems (h : List.Forall₂ (fun n f => s.field? n = some f) names fields) :
    List.Forall₂ (fun i f => i.Fits table s f) (Graph.columnItems table names) fields := by
  rw [Graph.columnItems, List.forall₂_map_left_iff]
  exact h.imp fun n f hf => .column _ hf

theorem forall₂_field? (hn : s.names.Nodup) :
    List.Forall₂ (fun n f => s.field? n = some f) s.names s.fields := by
  rw [Schema.names, List.forall₂_map_left_iff]
  exact List.forall₂_same.2 fun f hf => Schema.field?_of_mem hn hf

theorem mem_names_of_forall₂ (h : List.Forall₂ (fun n f => s.field? n = some f) names fields) :
    ∀ n ∈ names, ∃ f, s.field? n = some f := by
  intro n hn
  obtain ⟨i, hi, rfl⟩ := List.getElem_of_mem hn
  exact ⟨_, h.get hi (h.length_eq ▸ hi)⟩

theorem yields_columnItems (ht : t.Conforms s)
    (h : ∀ n ∈ names, ∃ f, s.field? n = some f) {sel : Select}
    (hsel : sel.items = Graph.columnItems table names) :
    sel.Yields table s t fun i => names.map (t.cell · i) := by
  intro scope row i hi hshows hrow
  rw [hsel, Graph.columnItems, List.map_map, List.map_map]
  refine List.map_congr_left fun n hn => ?_
  obtain ⟨f, hf⟩ := h n hn
  exact (Expr.Means.column table ht hf).eval hi hshows hrow

end Columns

/-! ## The operations -/

section Operations

variable {table : String} {s s' : Schema} {catalog : Catalog} {asked : Bool} {r : Relation} {t : Table}
  {names : List String}

/-- Some columns of a table. -/
theorem select_holds (asked : Bool) (hs : s.Apart) (hc : catalog table = some r) (hr : r.Holds t s)
    (ht : t.Conforms s) (hp : s.project names = .ok s') (hd : s'.Distinct) :
    ∃ u r', t.select names = .ok u ∧ u.Conforms s' ∧
      u.rows = (List.range t.rowCount).map (fun i => names.map (t.cell · i)) ∧
      (Select.ofInput (Graph.columnItems table names) (.table table)).eval? catalog asked = some r' ∧
        r'.Holds u s' := by
  have hfields := Schema.project_eq_ok hp
  obtain ⟨u, hu, hconf, hrows⟩ := Table.select_rows ht hp hd
  obtain ⟨r', hr', hholds⟩ := (Select.Over.ofInput (fits_columnItems hfields)).holds_simple
    asked hs hc hr ht (yields_columnItems ht (mem_names_of_forall₂ hfields) rfl)
    rfl rfl rfl hrows
  exact ⟨u, r', hu, hconf, hrows, hr', hholds⟩

/-- Some columns of a table, without rows that repeat an earlier one. -/
theorem selectDistinct_holds (hs : s.Apart) (hc : catalog table = some r) (hr : r.Holds t s)
    (ht : t.Conforms s) (hp : s.project names = .ok s') (hd : s'.Distinct) :
    ∃ u v r', t.select names = .ok u ∧ u.dropDuplicates = .ok v ∧ v.Conforms s' ∧
      ({ Select.ofInput (Graph.columnItems table names) (.table table) with distinct := true }).eval?
        catalog asked = some r' ∧ r'.Holds v s' := by
  have hfields := Schema.project_eq_ok hp
  obtain ⟨u, -, hu, hconf, hrows, -, -⟩ := select_holds asked hs hc hr ht hp hd
  have hcount : u.rowCount = t.rowCount := by
    simpa [Table.rows] using congrArg List.length hrows
  have hrow : ∀ i < t.rowCount, u.row i = names.map (t.cell · i) := by
    intro i hi
    have := congrArg (·[i]?) hrows
    simpa [Table.rows, hcount, hi] using this
  have hover : ({ Select.ofInput (Graph.columnItems table names) (.table table) with
      distinct := true }).Over table s s'.fields :=
    { Select.Over.ofInput (fits_columnItems hfields) with }
  have hkeys : (List.range u.rowCount).map (fun i => Scalar.keyOf (u.row i)) =
      (List.range t.rowCount).map fun i => Scalar.keyOf (names.map (t.cell · i)) := by
    rw [hcount]
    exact List.map_congr_left fun i hi => by rw [hrow i (List.mem_range.1 hi)]
  have hdrop := Table.dropDuplicates_ok hconf hd
  have hplain : ∀ i < t.rowCount, ∀ v ∈ names.map (t.cell · i), v.isPlain = true := by
    intro i _ v hv
    obtain ⟨n, hn, rfl⟩ := List.mem_map.1 hv
    obtain ⟨f, hf⟩ := mem_names_of_forall₂ hfields n hn
    exact DataType.isPlain_of_admits (ht.admits_cell hf i)
  have hv : (u.take (firstPositions [] 0 ((List.range u.rowCount).map fun i =>
      Scalar.keyOf (u.row i)))).rows = (firstPositions [] 0 ((List.range t.rowCount).map fun i =>
        Scalar.keyOf (names.map (t.cell · i)))).map fun i => names.map (t.cell · i) := by
    rw [Table.rows_take (hconf.columns_ne_nil hd.nonempty), hkeys]
    exact List.map_congr_left fun i hi => hrow i (mem_firstPositions.1 hi).1
  obtain ⟨r', hr', hholds⟩ := hover.holds_distinct asked hs hc hr ht
    (yields_columnItems ht (mem_names_of_forall₂ hfields) rfl) rfl rfl rfl hplain
    (fun i _ => List.length_map _) hv
  exact ⟨u, _, r', hu, hdrop, Table.conforms_take hconf hd.nonempty _, hr', hholds⟩

/-- The values of an expression are those of its cells. -/
theorem getD_map_range {value : Nat → Scalar} {k i : Nat} (hi : i < k) :
    ((List.range k).map value).getD i .null = value i := by
  simp [hi]

variable {n : Node} {e : Expr} {type : DataType} {value : Nat → Scalar}

/-- The columns of a node under their names. -/
theorem over_allItems (hs : n.schema.Apart) :
    (Select.ofInput (Graph.allItems n) (.table n.name)).Over n.name n.schema n.schema.fields :=
  .ofInput (fits_columnItems (forall₂_field? hs.nodup))

theorem yields_allItems (sel : Select) (hs : n.schema.Apart) (ht : t.Conforms n.schema)
    (hsel : sel.items = Graph.allItems n) : sel.Yields n.name n.schema t t.row := by
  have h := yields_columnItems ht
    (mem_names_of_forall₂ (forall₂_field? hs.nodup)) hsel
  intro scope row i hi hshows hrow
  rw [h scope row i hi hshows hrow, ht.row_eq hs.nodup]

theorem over_condition (hs : n.schema.Apart) (he : e.HasType n.name n.schema type) :
    ({ Select.ofInput (Graph.allItems n) (.table n.name) with condition? := some e }).Over
      n.name n.schema n.schema.fields :=
  { over_allItems hs with
    condition := fun c hc => by
      cases hc
      exact ⟨type, he⟩ }

/-- The rows for which a condition holds. -/
theorem filter_holds (asked : Bool) (hs : n.schema.Apart) (hne : n.schema.fields ≠ []) (hc : catalog n.name = some r)
    (hr : r.Holds t n.schema) (ht : t.Conforms n.schema) (he : e.Means n.name n.schema t type value)
    (htype : type.isIntegral = true) :
    ∃ u r', t.filter ((List.range t.rowCount).map value) = .ok u ∧ u.Conforms n.schema ∧
      ({ Select.ofInput (Graph.allItems n) (.table n.name) with condition? := some e }).eval?
        catalog asked = some r' ∧ r'.Holds u n.schema := by
  have hmask : (List.range t.rowCount).filter (fun i =>
      (((List.range t.rowCount).map value).getD i .null).truth? == some true) =
        (List.range t.rowCount).filter fun i => (value i).truth? == some true :=
    List.filter_congr fun i hi => by rw [getD_map_range (List.mem_range.1 hi)]
  have hu := Table.filter_ok (t := t) ((List.range t.rowCount).map value) (by simp)
  rw [hmask] at hu
  obtain ⟨r', hr', hholds⟩ := (over_condition hs he.toHasType).holds_filter asked hs hc hr ht
    (yields_allItems _ hs ht rfl) rfl rfl rfl he htype (Table.rows_take (ht.columns_ne_nil hne) _)
  exact ⟨_, r', hu, Table.conforms_take ht hne _, hr', hholds⟩

/-! ### Sorting -/

/-- The keys of a query that sorts by columns. -/
def sortKeys (table : String) (keys : List (String × Bool)) : List SortKey :=
  keys.map fun (k, ascending) => SortKey.mk (.column table k) (some ascending)

theorem over_sorted (hs : n.schema.Apart) {keys : List (String × Bool)}
    (hk : ∀ k ∈ keys.map (·.1), k ∈ n.schema.names) :
    ({ Select.ofInput (Graph.allItems n) (.table n.name) with
      orderBy := sortKeys n.name keys }).Over n.name n.schema n.schema.fields :=
  { over_allItems hs with
    keys := fun key hkey => by
      obtain ⟨p, hp, rfl⟩ := List.mem_map.1 hkey
      obtain ⟨f, hf⟩ := Schema.field?_isSome (hk p.1 (List.mem_map_of_mem hp))
      exact ⟨f.type, .column hf⟩ }

/-- Two rows are compared by the stored values of the keys as they are by the cells. -/
theorem compareKeys_eq (ht : t.Conforms s) {scope : Scope} (hshows : scope.Shows table s 0)
    {keys : List (String × Bool)} (hk : ∀ k ∈ keys.map (·.1), k ∈ s.names) {i j : Nat}
    (hi : i < t.rowCount) (hj : j < t.rowCount) {rowAt : Nat → List Datum}
    (hrow : ∀ i, RowShows (rowAt i) s 0 (t.cell · i)) :
    Select.compareKeys (sortKeys table keys)
        ((sortKeys table keys).map fun k => k.expr.eval scope (rowAt i))
        ((sortKeys table keys).map fun k => k.expr.eval scope (rowAt j)) = t.compareBy keys i j := by
  induction keys with
  | nil => rfl
  | cons p rest ih =>
    rw [List.map_cons, List.forall_mem_cons] at hk
    obtain ⟨f, hf⟩ := Schema.field?_isSome hk.1
    have column := Expr.Means.column table ht hf
    have order : ((Expr.column table p.1).eval scope (rowAt i)).compare
        ((Expr.column table p.1).eval scope (rowAt j)) =
          Scalar.compare (t.cell p.1 i) (t.cell p.1 j) := by
      rw [column.eval hi hshows (hrow i), column.eval hj hshows (hrow j),
        Scalar.compare_ofScalar (DataType.isPlain_of_admits (column.admits hi))
          (DataType.isPlain_of_admits (column.admits hj))]
    obtain ⟨name, ascending⟩ := p
    rw [sortKeys, List.map_cons, List.map_cons, List.map_cons, Select.compareKeys, Table.compareBy]
    dsimp only at order ⊢
    rw [order]
    have ih := ih hk.2
    rw [sortKeys] at ih
    rw [ih]
    cases ascending <;> rfl

/-- The rows in sorted order. -/
theorem sort_holds (asked : Bool) (hs : n.schema.Apart) (hne : n.schema.fields ≠ []) (hc : catalog n.name = some r)
    (hr : r.Holds t n.schema) (ht : t.Conforms n.schema) {keys : List (String × Bool)}
    (hk : ∀ k ∈ keys.map (·.1), k ∈ n.schema.names) (hkeys : keys ≠ []) :
    ∃ u r', t.sortValues keys = .ok u ∧ u.Conforms n.schema ∧
      ({ Select.ofInput (Graph.allItems n) (.table n.name) with
        orderBy := sortKeys n.name keys }).eval? catalog asked = some r' ∧ r'.Holds u n.schema := by
  obtain ⟨u, hu, hconf, hrows⟩ := Table.sortValues_ok ht hne hk
  obtain ⟨r', scope, rowAt, hr', hh, hn, hdelivered, hshows, hrow⟩ :=
    (over_sorted hs hk).eval?_rows asked hs hc hr ht
  refine ⟨u, r', hu, hconf, hr', .of_rows hh hn ?_⟩
  rw [hdelivered, hrows, Select.plainRows_sorted rfl rfl (by simpa [sortKeys] using hkeys)
    (fun i hi j hj => compareKeys_eq ht hshows hk hi hj hrow)
    fun i hi => yields_allItems _ hs ht rfl scope _ i hi hshows (hrow i)]

/-! ### Renaming and replacing -/

theorem over_renameItems (hs : n.schema.Apart) (mapping : List (String × String)) :
    (Select.ofInput (Graph.renameItems n mapping) (.table n.name)).Over n.name n.schema
      (n.schema.renamed mapping).fields := by
  refine .ofInput ?_
  rw [Graph.renameItems, Schema.renamed, Node.columns, Schema.names, List.map_map,
    List.forall₂_map_left_iff, List.forall₂_map_right_iff]
  refine List.forall₂_same.2 fun f hf => ?_
  have hfield := Schema.field?_of_mem hs.nodup hf
  rw [Function.comp, Table.newName]
  cases mapping.find? fun p => p.1 == f.name with
  | none => exact .column _ hfield
  | some p => exact .renamed (f := { f with name := p.2 }) hfield rfl

/-- The columns under other names. -/
theorem rename_holds (asked : Bool) (hs : n.schema.Apart) (hc : catalog n.name = some r) (hr : r.Holds t n.schema)
    (ht : t.Conforms n.schema) {mapping : List (String × String)}
    (hm : ∀ k ∈ mapping.map (·.1), k ∈ n.schema.names) (hd : (n.schema.renamed mapping).Distinct) :
    ∃ u r', t.rename mapping = .ok u ∧ u.Conforms (n.schema.renamed mapping) ∧
      (Select.ofInput (Graph.renameItems n mapping) (.table n.name)).eval? catalog asked = some r' ∧
        r'.Holds u (n.schema.renamed mapping) := by
  obtain ⟨hu, hconf⟩ := Table.rename_ok ht hm hd
  have hrows := Table.rows_eq hconf hd.nonempty
  have hyields : (Select.ofInput (Graph.renameItems n mapping) (.table n.name)).Yields n.name n.schema t
      t.row := by
    intro scope row i hi hshows hrow
    rw [← yields_allItems (.ofInput (Graph.allItems n) (.table n.name)) hs ht rfl scope row i hi
      hshows hrow]
    simp only [Select.ofInput, Graph.renameItems, Graph.allItems, Graph.columnItems, List.map_map]
    refine List.map_congr_left fun c _ => ?_
    simp only [Function.comp]
    split <;> rfl
  obtain ⟨r', hr', hholds⟩ := (over_renameItems hs mapping).holds_simple asked hs hc hr ht
    hyields rfl rfl rfl (u := ⟨t.columns.map fun c => ⟨Table.newName mapping c.name, c.values⟩⟩) (by
      rw [hrows]
      simp [Table.row, Function.comp_def])
  exact ⟨_, r', hu, Table.conforms_of_columns hconf hd.nonempty, hr', hholds⟩

theorem map_replace_of_not_mem {α : Type} (name : α → String) {xs : List α} {k : String} {x : α}
    (h : k ∉ xs.map name) : (xs.map fun y => if name y = k then x else y) = xs := by
  refine (List.map_congr_left fun y hy => if_neg ?_).trans (List.map_id _)
  rintro rfl
  exact h (List.mem_map_of_mem hy)

theorem over_assignItems (hs : n.schema.Apart) {f : Field} (he : e.HasType n.name n.schema f.type) :
    (Select.ofInput (Graph.assignItems n f.name e) (.table n.name)).Over n.name n.schema
      (n.schema.put f).fields := by
  refine .ofInput ?_
  have hplaced : List.Forall₂ (fun (i : Item) f => i.Fits n.name n.schema f)
      (n.columns.map fun c => if c = f.name then ⟨e, some f.name⟩ else ⟨.column n.name c, none⟩)
      (n.schema.fields.map fun g => if g.name = f.name then f else g) := by
    rw [Node.columns, Schema.names, List.map_map, List.forall₂_map_left_iff, List.forall₂_map_right_iff]
    refine List.forall₂_same.2 fun g hg => ?_
    rw [Function.comp]
    split
    · exact .named he
    · exact .column _ (Schema.field?_of_mem hs.nodup hg)
  rw [Graph.assignItems, Table.put_eq hs.nodup, Table.putNamed, Node.columns, Schema.names]
  by_cases hmem : f.name ∈ n.schema.fields.map Field.name
  · rw [if_pos hmem, if_pos (by simpa using hmem)]
    exact hplaced
  · rw [if_neg hmem, if_neg (by simpa using hmem)]
    rw [map_replace_of_not_mem _ hmem] at hplaced
    exact List.rel_append hplaced (.cons (.named he) .nil)

/-- A column is put in the place of the one of its name, or at the end. -/
theorem assign_holds (asked : Bool) (hs : n.schema.Apart) (hd : n.schema.Distinct) (hc : catalog n.name = some r)
    (hr : r.Holds t n.schema) (ht : t.Conforms n.schema) {f : Field} (hf : f.type.isPlain = true)
    (he : e.Means n.name n.schema t f.type value) :
    ∃ u r', t.assignColumn f.name ((List.range t.rowCount).map value) = .ok u ∧
      u.Conforms (n.schema.put f) ∧
      (Select.ofInput (Graph.assignItems n f.name e) (.table n.name)).eval? catalog asked = some r' ∧
        r'.Holds u (n.schema.put f) := by
  have hcolumn : Column.Conforms t.rowCount ⟨f.name, (List.range t.rowCount).map value⟩ f := by
    refine ⟨rfl, hf, by simp, fun v hv => ?_⟩
    obtain ⟨i, hi, rfl⟩ := List.mem_map.1 hv
    exact he.admits (List.mem_range.1 hi)
  obtain ⟨hu, hconf⟩ := Table.assignColumn_ok ht hd hcolumn
  have hput : (n.schema.put f).fields ≠ [] := by
    rw [Table.put_eq hs.nodup, Table.putNamed]
    split
    · simpa using hd.nonempty
    · simp
  have hyields : (Select.ofInput (Graph.assignItems n f.name e) (.table n.name)).Yields n.name n.schema t
      fun i => (Table.putNamed Column.name t.columns
        ⟨f.name, (List.range t.rowCount).map value⟩).map fun c => c.values.getD i .null := by
    intro scope row i hi hshows hrow
    have placed : List.Forall₂ (· = ·)
        ((n.columns.map fun c => (if c = f.name then ⟨e, some f.name⟩ else ⟨.column n.name c, none⟩ : Item)).map
          fun it => it.expr.eval scope row)
        ((t.columns.map fun c => if c.name = f.name then
          (⟨f.name, (List.range t.rowCount).map value⟩ : Column) else c).map
            fun c => Datum.ofScalar (c.values.getD i .null)) := by
      rw [List.forall₂_map_left_iff, List.forall₂_map_left_iff, List.forall₂_map_right_iff,
        List.forall₂_map_right_iff]
      refine (ht.columns_eq hs.nodup).imp fun name c hname => ?_
      have hcname : c.name = name := by simpa using List.find?_some hname
      rw [hcname]
      split
      · dsimp only
        rw [getD_map_range hi]
        exact he.eval hi hshows hrow
      · have hmem : name ∈ n.schema.names := by
          rw [← ht.names_eq, ← hcname]
          exact List.mem_map_of_mem (List.mem_of_find?_eq_some hname)
        obtain ⟨g, hg⟩ := Schema.field?_isSome hmem
        rw [← Table.cell_of_column? hname]
        exact (Expr.Means.column n.name ht hg).eval hi hshows hrow
    rw [List.forall₂_eq_eq_eq] at placed
    have hnames : t.columns.map Column.name = n.schema.names := ht.names_eq
    rw [Table.putNamed, Select.ofInput, Graph.assignItems, hnames, Node.columns]
    by_cases hmem : f.name ∈ n.schema.names
    · rw [if_pos hmem, if_pos (by simpa using hmem), List.map_map (g := Datum.ofScalar)]
      exact placed
    · rw [map_replace_of_not_mem Column.name (hnames ▸ hmem)] at placed
      rw [if_neg hmem, if_neg (by simpa using hmem), List.map_append]
      dsimp only
      rw [List.map_append, List.map_append, List.map_map (g := Datum.ofScalar)]
      refine congr (congrArg _ placed) ?_
      simp only [List.map_cons, List.map_nil, getD_map_range hi, he.eval hi hshows hrow]
  obtain ⟨r', hr', hholds⟩ := (over_assignItems hs he.toHasType).holds_simple asked hs hc hr ht
    hyields rfl rfl rfl (u := ⟨Table.putNamed Column.name t.columns
      ⟨f.name, (List.range t.rowCount).map value⟩⟩) (Table.rows_eq hconf hput)
  exact ⟨_, r', hu, Table.conforms_of_columns hconf hput, hr', hholds⟩

/-! ### Single expressions -/

theorem over_expression (name : String) {f : Field} (hf : f.name = name)
    (he : e.HasType table s f.type) :
    (Select.ofInput [⟨e, some name⟩] (.table table)).Over table s [f] :=
  .ofInput (.cons (hf ▸ .named he) .nil)

/-- A single column of plain values. -/
theorem conforms_single {f : Field} (hf : f.type.isPlain = true) {k : Nat}
    (hv : ∀ i < k, f.type.admits (value i) = true) :
    (Table.mk [⟨f.name, (List.range k).map value⟩]).Conforms ⟨[f]⟩ ∧
      (Table.mk [⟨f.name, (List.range k).map value⟩]).rows = (List.range k).map fun i => [value i] := by
  have hconf : List.Forall₂ (Column.Conforms k) [⟨f.name, (List.range k).map value⟩] [f] := by
    refine .cons ⟨rfl, hf, by simp, fun v hv' => ?_⟩ .nil
    obtain ⟨i, hi, rfl⟩ := List.mem_map.1 hv'
    exact hv i (List.mem_range.1 hi)
  refine ⟨Table.conforms_of_columns (s := ⟨[f]⟩) hconf (by simp), ?_⟩
  rw [Table.rows_eq (s := ⟨[f]⟩) hconf (by simp)]
  exact List.map_congr_left fun i hi => by
    rw [List.map_cons, List.map_nil, getD_map_range (List.mem_range.1 hi)]

/-- The values of an expression as a column. -/
theorem expression_holds (asked : Bool) (hs : s.Apart) (hc : catalog table = some r) (hr : r.Holds t s)
    (ht : t.Conforms s) {f : Field} (hf : f.type.isPlain = true) (he : e.Means table s t f.type value) :
    (Table.mk [⟨f.name, (List.range t.rowCount).map value⟩]).Conforms ⟨[f]⟩ ∧
      ∃ r', (Select.ofInput [⟨e, some f.name⟩] (.table table)).eval? catalog asked = some r' ∧
        r'.Holds ⟨[⟨f.name, (List.range t.rowCount).map value⟩]⟩ ⟨[f]⟩ := by
  have hadmits : ∀ i < t.rowCount, f.type.admits (value i) = true := fun _ hi => he.admits hi
  obtain ⟨hconf, hrows⟩ := conforms_single hf hadmits
  have hover : (Select.ofInput [⟨e, some f.name⟩] (.table table)).Over table s (Schema.mk [f]).fields :=
    over_expression f.name rfl he.toHasType
  refine ⟨hconf, hover.holds_simple asked hs hc hr ht
    (fun scope row i hi hshows hrow => (?_ : _ = [value i].map Datum.ofScalar)) rfl rfl rfl hrows⟩
  simp [Select.ofInput, he.eval hi hshows hrow]

end Operations
end Sql
end LazyQuery
