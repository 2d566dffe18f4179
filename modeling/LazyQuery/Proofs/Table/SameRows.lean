import LazyQuery.Proofs.Table.Repetitions
import Mathlib.Data.List.Perm.Basic

/-!
# Tables with the same rows

Two tables have the *same rows* if they have columns of the same names in the same order, and their rows
are the same up to the order in which they come (`Table.SameRows`). Then one is made by taking the rows of
the other in some order (`SameRows.exists_order`), and what is true of the rows by their numbers is carried
over along it.

Operations on tables keep this: `SameRows.sorted`, `SameRows.firsts`, `perm_pairsOf`, `perm_concat` and
`SameRows.aggregated` are about those that do not go through a table row by row.
-/

set_option autoImplicit false

namespace LazyQuery

variable {α β : Type}

/-! ## Orders of numbers -/

/-- Things made of others, in another order, are made of those in another order. -/
theorem exists_perm_of_perm_map {f : α → β} {xs : List α} {ys : List β} (h : ys.Perm (xs.map f)) :
    ∃ xs' : List α, xs'.Perm xs ∧ ys = xs'.map f := by
  obtain ⟨xs', hys, hperm⟩ := cast (congrFun₂ (List.eq_map_comp_perm f) ys xs).symm h
  exact ⟨xs', hperm, hys⟩

section Order

variable {order : List Nat} {n : Nat}

theorem map_getD_order (h : order.Perm (List.range n)) : (List.range n).map (order.getD · 0) = order := by
  have hlen : order.length = n := by rw [h.length_eq, List.length_range]
  exact List.ext_getElem (by simp [hlen]) fun i hi hi' => by simp [List.getElem?_eq_getElem hi']

theorem getD_order_lt (h : order.Perm (List.range n)) {i : Nat} (hi : i < n) : order.getD i 0 < n := by
  refine List.mem_range.1 (h.mem_iff.1 ?_)
  rw [← map_getD_order h, List.getD_eq_getElem _ _ (by simpa using hi)]
  simp only [List.getElem_map, List.getElem_range]
  exact List.mem_map_of_mem (List.mem_range.2 hi)

theorem exists_getD_order (h : order.Perm (List.range n)) {i : Nat} (hi : i < n) :
    ∃ k < n, order.getD k 0 = i := by
  have hmem := h.mem_iff.2 (List.mem_range.2 hi)
  rw [← map_getD_order h] at hmem
  obtain ⟨k, hk, rfl⟩ := List.mem_map.1 hmem
  exact ⟨k, List.mem_range.1 hk, rfl⟩

/-- What passes a test, in another order. -/
theorem perm_filter_order (h : order.Perm (List.range n)) {p q : Nat → Bool}
    (hp : ∀ i < n, q i = p (order.getD i 0)) :
    (((List.range n).filter q).map (order.getD · 0)).Perm ((List.range n).filter p) := by
  have hq : (List.range n).filter q = (List.range n).filter (p ∘ (order.getD · 0)) :=
    List.filter_congr fun i hi => hp i (List.mem_range.1 hi)
  rw [hq, ← List.filter_map, map_getD_order h]
  exact h.filter p

/-- What is made of some numbers, in another order. -/
theorem perm_map_filter_order (h : order.Perm (List.range n)) {p q : Nat → Bool} {f g : Nat → α}
    (hp : ∀ i < n, q i = p (order.getD i 0)) (hg : ∀ i < n, g i = f (order.getD i 0)) :
    (((List.range n).filter q).map g).Perm (((List.range n).filter p).map f) := by
  have hmap : ((List.range n).filter q).map g = (((List.range n).filter q).map (order.getD · 0)).map f := by
    rw [List.map_map]
    exact List.map_congr_left fun i hi => hg i (List.mem_range.1 (List.mem_filter.1 hi).1)
  rw [hmap]
  exact (perm_filter_order h hp).map f

/-- What is made of all numbers, in another order. -/
theorem perm_map_order (h : order.Perm (List.range n)) {f g : Nat → α}
    (hg : ∀ i < n, g i = f (order.getD i 0)) : ((List.range n).map g).Perm ((List.range n).map f) := by
  simpa using perm_map_filter_order (p := fun _ => true) (q := fun _ => true) h (fun _ _ => rfl) hg

end Order

/-- Cells of one plain type that are stored alike are the same. -/
theorem DataType.eq_of_ofScalar {type : DataType} {v w : Scalar} (hv : type.admits v = true)
    (hw : type.admits w = true) (h : Sql.Datum.ofScalar v = Sql.Datum.ofScalar w) : v = w := by
  cases v <;> cases w <;> cases type <;>
    simp_all [admits, Scalar.isPlain, Scalar.isNull, Scalar.dataType, Sql.Datum.ofScalar,
      Sql.Datum.ofBool]
  rename_i b b'
  cases b <;> cases b' <;> first | rfl | exact absurd h (by decide)

namespace Table

variable {t u x y l r : Table} {s s' : Schema} {order : List Nat} {keys columns : List String}

/-! ## The same rows -/

/-- The tables have the same columns, in the same order, and the same rows, in whatever order. -/
structure SameRows (t u : Table) : Prop where
  names : t.names = u.names
  rows : t.rows.Perm u.rows

namespace SameRows

theorem refl (t : Table) : t.SameRows t := ⟨rfl, .refl _⟩

theorem symm (h : t.SameRows u) : u.SameRows t := ⟨h.names.symm, h.rows.symm⟩

theorem trans (h : t.SameRows u) (h' : u.SameRows x) : t.SameRows x :=
  ⟨h.names.trans h'.names, h.rows.trans h'.rows⟩

theorem rowCount (h : t.SameRows u) : t.rowCount = u.rowCount := by
  simpa [Table.rows] using h.rows.length_eq

/-- Tables that conform to one schema have the same columns. -/
theorem of_rows (ht : t.Conforms s) (hu : u.Conforms s) (h : t.rows.Perm u.rows) : t.SameRows u :=
  ⟨ht.names_eq.trans hu.names_eq.symm, h⟩

end SameRows

/-- The rows of a table in another order. -/
theorem sameRows_take (hc : t.columns ≠ []) (h : order.Perm (List.range t.rowCount)) :
    t.SameRows (t.take order) :=
  ⟨(names_take t order).symm, by rw [rows_take hc]; exact (h.map t.row).symm⟩

/-- Tables that conform to one schema are told apart by their rows. -/
theorem Conforms.eq_of_rows (ht : t.Conforms s) (hu : u.Conforms s) (h : t.rows = u.rows) : t = u := by
  have hcount : t.rowCount = u.rowCount := by simpa [rows] using congrArg List.length h
  have hlen : t.columns.length = u.columns.length := ht.length_eq.trans hu.length_eq.symm
  obtain ⟨tc⟩ := t
  obtain ⟨uc⟩ := u
  refine congrArg Table.mk (List.ext_getElem hlen fun j hj hj' => ?_)
  have hf : j < s.fields.length := ht.length_eq ▸ hj
  have hct := ht.get hj hf
  have hcu := hu.get hj' hf
  have hlt : tc[j].values.length = (Table.mk tc).rowCount := hct.length
  have hlu : uc[j].values.length = (Table.mk uc).rowCount := hcu.length
  have hvalues : tc[j].values = uc[j].values := by
    refine List.ext_getElem (hlt.trans (hcount.trans hlu.symm)) fun i hi hi' => ?_
    have hrow : (Table.mk tc).row i = (Table.mk uc).row i := by
      have := congrArg (·[i]?) h
      simpa [rows, hlt ▸ hi, hlu ▸ hi'] using this
    have hcell := congrArg (·[j]?) hrow
    simpa [row, hj, hj', List.getElem?_eq_getElem hi, List.getElem?_eq_getElem hi'] using hcell
  have hname : tc[j].name = uc[j].name := hct.name.trans hcu.name.symm
  rcases htc : tc[j] with ⟨name, values⟩
  rcases huc : uc[j] with ⟨name', values'⟩
  rw [htc, huc] at hname hvalues
  exact congrArg₂ Column.mk hname hvalues

/-- **Of two tables with the same rows, one has the rows of the other in some order.** -/
theorem SameRows.exists_order (h : t.SameRows u) (ht : t.Conforms s) (hu : u.Conforms s)
    (hs : s.fields ≠ []) : ∃ order : List Nat, order.Perm (List.range t.rowCount) ∧ u = t.take order := by
  obtain ⟨order, horder, hrows⟩ := exists_perm_of_perm_map h.rows.symm
  refine ⟨order, horder, hu.eq_of_rows (conforms_take ht hs order) ?_⟩
  rw [rows_take (ht.columns_ne_nil hs)]
  exact hrows

section Take

variable (h : order.Perm (List.range t.rowCount))

include h

theorem rowCount_order (hc : t.columns ≠ []) : (t.take order).rowCount = t.rowCount := by
  rw [rowCount_take hc, h.length_eq, List.length_range]

theorem cell_order {i : Nat} (hi : i < t.rowCount) (name : String) :
    (t.take order).cell name i = t.cell name (order.getD i 0) := by
  have hlt : i < order.length := by rwa [h.length_eq, List.length_range]
  rw [cell_take hlt, List.getD_eq_getElem _ _ hlt]

theorem row_order {i : Nat} (hi : i < t.rowCount) : (t.take order).row i = t.row (order.getD i 0) := by
  have hlt : i < order.length := by rwa [h.length_eq, List.length_range]
  rw [row, row, take, List.map_map]
  refine List.map_congr_left fun c _ => ?_
  simp [hlt]

theorem rowKey_order {i : Nat} (hi : i < t.rowCount) :
    (t.take order).rowKey keys i = t.rowKey keys (order.getD i 0) := by
  unfold rowKey
  simp only [cell_order h hi]

end Take

/-! ## Sorting and repetitions -/

theorem SameRows.sorted (h : t.SameRows u) (hc : t.columns ≠ []) (hc' : u.columns ≠ [])
    (keys : List (String × Bool)) :
    (t.take (t.sortOrder keys)).SameRows (u.take (u.sortOrder keys)) :=
  ((sameRows_take hc (t.perm_sortOrder keys)).symm.trans h).trans
    (sameRows_take hc' (u.perm_sortOrder keys))

/-- Rows with the same key have the same cells in the columns of the key, if these are of one plain type
each. -/
theorem rowKey_eq_iff (ht : t.Conforms s) (hu : u.Conforms s)
    (hk : ∀ k ∈ keys, ∃ f, s.field? k = some f) (i j : Nat) :
    t.rowKey keys i = u.rowKey keys j ↔ keys.map (t.cell · i) = keys.map (u.cell · j) := by
  have plain {x : Table} (hx : x.Conforms s) (i : Nat) :
      ∀ v ∈ keys.map (x.cell · i), v.isPlain = true := by
    intro v hv
    obtain ⟨k, hk', rfl⟩ := List.mem_map.1 hv
    obtain ⟨f, hf⟩ := hk k hk'
    exact DataType.isPlain_of_admits (hx.admits_cell hf i)
  rw [rowKey, rowKey, Scalar.keyOf_eq_iff (plain ht i) (plain hu j) (by simp), List.map_map, List.map_map,
    List.map_inj_left, List.map_inj_left]
  refine forall₂_congr fun k hk' => ⟨fun h => ?_, congrArg _⟩
  obtain ⟨f, hf⟩ := hk k hk'
  exact DataType.eq_of_ofScalar (ht.admits_cell hf i) (hu.admits_cell hf j) h

theorem SameRows.firsts (h : t.SameRows u) (ht : t.Conforms s) (hu : u.Conforms s) (hs : s.Distinct) :
    (t.take t.firstRows).SameRows (u.take u.firstRows) := by
  have hk : ∀ k ∈ s.names, ∃ f, s.field? k = some f := fun k => Schema.field?_isSome
  -- The rows that are kept are those that there are, each of them once.
  have kept {x : Table} (hx : x.Conforms s) : (x.take x.firstRows).rows.Nodup ∧
      ∀ row, row ∈ (x.take x.firstRows).rows ↔ row ∈ x.rows := by
    have same (i j : Nat) : x.row i = x.row j ↔ x.rowKey x.names i = x.rowKey x.names j := by
      rw [hx.row_eq hs.nodup, hx.row_eq hs.nodup, ← hx.names_eq,
        rowKey_eq_iff hx hx (hx.names_eq ▸ hk)]
    have hnodup : x.firstRows.Nodup := List.nodup_range.filter _
    rw [rows_firsts]
    constructor
    · refine hnodup.map_on fun i hi j hj hij => ?_
      exact groupRows_inj (mem_firstRows_iff_groupRow.1 hi) (mem_firstRows_iff_groupRow.1 hj)
        ((same i j).1 hij)
    · intro row
      rw [Table.rows, List.mem_map, List.mem_map]
      constructor
      · rintro ⟨i, hi, rfl⟩
        exact ⟨i, List.mem_range.2 (mem_firstRows.1 hi).1, rfl⟩
      · rintro ⟨j, hj, rfl⟩
        obtain ⟨i, hi, hkey⟩ : ∃ i ∈ x.groupRows x.names, x.rowKey x.names i = x.rowKey x.names j :=
          exists_groupRow (List.mem_range.1 hj)
        exact ⟨i, mem_firstRows_iff_groupRow.2 hi, (same i j).2 hkey⟩
  refine ⟨by rw [names_take, names_take, h.names], (List.perm_ext_iff_of_nodup (kept ht).1 (kept hu).1).2
    fun row => ?_⟩
  rw [(kept ht).2, (kept hu).2, h.rows.mem_iff]

/-! ## Row by row -/

section RowByRow

variable {mapping : List (String × String)} {value : Nat → Scalar} {f : Field}

theorem SameRows.select (h : t.SameRows u) (ht : t.Conforms s) (hu : u.Conforms s) (hs : s.fields ≠ [])
    {names : List String} (hp : s.project names = .ok s') (hd : s'.Distinct)
    (hx : t.select names = .ok x) (hy : u.select names = .ok y) : x.SameRows y := by
  obtain ⟨order, horder, rfl⟩ := h.exists_order ht hu hs
  obtain ⟨x', hx', hconf, hrows⟩ := select_rows ht hp hd
  obtain ⟨y', hy', hconf', hrows'⟩ := select_rows hu hp hd
  obtain rfl := Except.ok.inj (hx.symm.trans hx')
  obtain rfl := Except.ok.inj (hy.symm.trans hy')
  refine .of_rows hconf hconf' ?_
  rw [hrows, hrows', rowCount_order horder (ht.columns_ne_nil hs)]
  exact (perm_map_order horder fun i hi => List.map_congr_left fun n _ => cell_order horder hi n).symm

theorem SameRows.rename (h : t.SameRows u) (ht : t.Conforms s) (hu : u.Conforms s)
    (hm : ∀ n ∈ mapping.map (·.1), n ∈ s.names) (hd : (s.renamed mapping).Distinct)
    (hx : t.rename mapping = .ok x) (hy : u.rename mapping = .ok y) : x.SameRows y := by
  obtain ⟨hx', hconf⟩ := rename_ok ht hm hd
  obtain ⟨hy', hconf'⟩ := rename_ok hu hm hd
  obtain rfl := Except.ok.inj (hx.symm.trans hx')
  obtain rfl := Except.ok.inj (hy.symm.trans hy')
  refine .of_rows (conforms_of_columns hconf hd.nonempty) (conforms_of_columns hconf' hd.nonempty) ?_
  have hrows := h.rows
  rw [rows_eq hconf hd.nonempty, rows_eq hconf' hd.nonempty]
  simp only [List.map_map]
  exact hrows

section Values

variable (ht : t.Conforms s) (hs : s.fields ≠ []) (h : order.Perm (List.range t.rowCount))

include ht hs h

/-- The rows that pass a test, where the rows come in another order. -/
theorem sameRows_filter (hx : t.filter ((List.range t.rowCount).map value) = .ok x)
    (hy : (t.take order).filter ((List.range t.rowCount).map fun i => value (order.getD i 0)) = .ok y) :
    x.SameRows y := by
  have hcount := rowCount_order h (ht.columns_ne_nil hs)
  have hu := conforms_take ht hs order
  have passes {v : Nat → Scalar} : ((List.range t.rowCount).filter fun i =>
      (((List.range t.rowCount).map v).getD i .null).truth? == some true) =
        (List.range t.rowCount).filter fun i => (v i).truth? == some true :=
    List.filter_congr fun i hi => by simp [List.mem_range.1 hi]
  rw [filter_ok _ (by simp), passes] at hx
  rw [filter_ok _ (by simp [hcount]), hcount, passes] at hy
  obtain rfl := Except.ok.inj hx
  obtain rfl := Except.ok.inj hy
  refine .of_rows (conforms_take ht hs _) (conforms_take hu hs _) ?_
  rw [rows_take (ht.columns_ne_nil hs), rows_take (hu.columns_ne_nil hs)]
  exact (perm_map_filter_order h (fun _ _ => rfl) fun i hi => row_order h hi).symm

/-- A column put into a table, where the rows come in another order. -/
theorem sameRows_assign (hd : s.Distinct)
    (hf : Column.Conforms t.rowCount ⟨f.name, (List.range t.rowCount).map value⟩ f)
    (hx : t.assignColumn f.name ((List.range t.rowCount).map value) = .ok x)
    (hy : (t.take order).assignColumn f.name
      ((List.range t.rowCount).map fun i => value (order.getD i 0)) = .ok y) : x.SameRows y := by
  have hcount := rowCount_order h (ht.columns_ne_nil hs)
  have hvalues : ((List.range t.rowCount).map fun i => value (order.getD i 0)) =
      order.map fun i => ((List.range t.rowCount).map value).getD i .null := by
    nth_rewrite 2 [← map_getD_order h]
    rw [List.map_map]
    refine List.map_congr_left fun i hi => ?_
    have hlt := getD_order_lt h (List.mem_range.1 hi)
    rw [Function.comp]
    generalize order.getD i 0 = k at hlt ⊢
    simp [hlt]
  have hf' : Column.Conforms (t.take order).rowCount
      ⟨f.name, (List.range t.rowCount).map fun i => value (order.getD i 0)⟩ f := by
    refine ⟨hf.name, hf.isPlain, by simp [hcount], fun v hv => hf.admits v ?_⟩
    obtain ⟨i, hi, rfl⟩ := List.mem_map.1 hv
    exact List.mem_map_of_mem (List.mem_range.2 (getD_order_lt h (List.mem_range.1 hi)))
  obtain ⟨hx', hconf⟩ := assignColumn_ok ht hd hf
  obtain ⟨hy', -⟩ := assignColumn_ok (conforms_take ht hs order) hd hf'
  obtain rfl := Except.ok.inj (hx.symm.trans hx')
  obtain rfl := Except.ok.inj (hy.symm.trans hy')
  have hput : (s.put f).fields ≠ [] := by
    rw [put_eq hd.nodup, putNamed]
    split <;> simp [hs]
  have htake : Table.mk (putNamed Column.name (t.take order).columns
      ⟨f.name, (List.range t.rowCount).map fun i => value (order.getD i 0)⟩) =
        (Table.mk (putNamed Column.name t.columns ⟨f.name, (List.range t.rowCount).map value⟩)).take
          order := by
    rw [hvalues, take, take]
    exact congrArg Table.mk (map_putNamed Column.name
      (fun c => ⟨c.name, order.map fun i => c.values.getD i .null⟩) (fun _ => rfl) t.columns
      ⟨f.name, (List.range t.rowCount).map value⟩).symm
  rw [htake]
  refine sameRows_take (Conforms.columns_ne_nil (conforms_of_columns hconf hput) hput) ?_
  rwa [Conforms.rowCount_eq hconf hput]

end Values
end RowByRow

/-! ## Stacking -/

/-- The columns of a table over which something is stacked. -/
theorem SameRows.rowsOver (h : t.SameRows u) (ht : t.Conforms s) (hu : u.Conforms s)
    (hs : s.fields ≠ []) (names : List String) : (t.rowsOver names).Perm (u.rowsOver names) := by
  obtain ⟨order, horder, rfl⟩ := h.exists_order ht hu hs
  rw [Table.rowsOver, Table.rowsOver, rowCount_order horder (ht.columns_ne_nil hs)]
  refine (perm_map_order horder fun i hi => ?_).symm
  exact List.map_congr_left fun n _ => cell_order horder hi n

/-- Tables with the same rows that conform to a schema whose columns can be stacked. -/
def StackAlike (s : Schema) (t u : Table) : Prop :=
  t.SameRows u ∧ ∃ s', t.Conforms s' ∧ u.Conforms s' ∧ s'.fields.length = s.fields.length ∧
    ∀ f ∈ s.fields, ∃ g, s'.field? f.name = some g ∧ g.type = f.type

theorem sameRows_concat (hd : s.Distinct) (hplain : ∀ f ∈ s.fields, f.type.isPlain = true)
    {tables tables' : List Table} (h : List.Forall₂ (StackAlike s) tables tables')
    (hx : concat tables s.names = .ok x) (hy : concat tables' s.names = .ok y) : x.SameRows y := by
  have stacked (ts : List Table) (hts : ∀ t ∈ ts, ∃ s', t.Conforms s' ∧
      s'.fields.length = s.fields.length ∧ ∀ f ∈ s.fields, ∃ g, s'.field? f.name = some g ∧
        g.type = f.type) {z : Table} (hz : concat ts s.names = .ok z) :
      z.Conforms s ∧ z.rows = ts.flatMap (rowsOver · s.names) := by
    obtain ⟨columns, k, hz', hconf, hrows⟩ := concat_ok ts hd hplain hts
    obtain rfl := Except.ok.inj (hz.symm.trans hz')
    exact ⟨conforms_of_columns hconf hd.nonempty, hrows⟩
  obtain ⟨hconf, hrows⟩ := stacked tables (fun t ht => by
    obtain ⟨u, -, -, s', ht, -, hs'⟩ := exists_of_mem_left h ht
    exact ⟨s', ht, hs'⟩) hx
  obtain ⟨hconf', hrows'⟩ := stacked tables' (fun u hu => by
    obtain ⟨t, -, -, s', -, hu, hs'⟩ := exists_of_mem_right h hu
    exact ⟨s', hu, hs'⟩) hy
  refine .of_rows hconf hconf' ?_
  rw [hrows, hrows']
  clear hrows hrows' hx hy hconf hconf'
  induction h with
  | nil => exact .refl _
  | cons h _ ih =>
    obtain ⟨hsame, s', ht, hu, hlen, -⟩ := h
    rw [List.flatMap_cons, List.flatMap_cons]
    refine (hsame.rowsOver ht hu (fun hnil => hd.nonempty ?_) s.names).append ih
    exact List.eq_nil_of_length_eq_zero (hlen.symm.trans (by rw [hnil]; rfl))

/-! ## Joins -/

/-- The pairs of a row on the left with the rows that match it. -/
def pairsWith (how : JoinType) (i : Nat) : List Nat → List (Nat × Option Nat)
  | [] => if how = .left then [(i, none)] else []
  | js => js.map fun j => (i, some j)

theorem perm_pairsWith (how : JoinType) (i : Nat) {js js' : List Nat} (h : js.Perm js') :
    (pairsWith how i js).Perm (pairsWith how i js') := by
  cases js with
  | nil => rw [h.symm.eq_nil]
  | cons j js =>
    cases js' with
    | nil => cases h.eq_nil
    | cons j' js' => exact h.map fun j => (i, some j)

theorem map_pairsWith (how : JoinType) (i : Nat) (js : List Nat) (f g : Nat → Nat) :
    (pairsWith how i js).map (Prod.map f (Option.map g)) = pairsWith how (f i) (js.map g) := by
  cases js with
  | nil => by_cases h : how = .left <;> simp [pairsWith, h]
  | cons j js => simp [pairsWith, Function.comp_def]

theorem lt_of_mem_pairsOf {how : JoinType} {n m : Nat} {test : Nat → Nat → Bool} {p : Nat × Option Nat}
    (hp : p ∈ pairsOf how n m test) : p.1 < n ∧ ∀ j, p.2 = some j → j < m := by
  obtain ⟨i, j | _⟩ := p
  · obtain ⟨i', hi, h⟩ := List.mem_flatMap.1 hp
    refine ⟨?_, nofun⟩
    split at h
    · split at h
      · obtain ⟨rfl, -⟩ := Prod.mk.inj (List.mem_singleton.1 h)
        exact List.mem_range.1 hi
      · cases h
    · obtain ⟨j, -, he⟩ := List.mem_map.1 h
      cases he
  · obtain ⟨hi, hj, -⟩ := mem_pairsOf.1 hp
    exact ⟨hi, fun j' hj' => Option.some.inj hj' ▸ hj⟩

/-- **Two tables whose rows are in other orders are joined to the same pairs**, in another order. -/
theorem perm_pairsOf (how : JoinType) {n m : Nat} {order' : List Nat} (h : order.Perm (List.range n))
    (h' : order'.Perm (List.range m)) (matched matched' : Nat → Nat → Bool)
    (hm : ∀ i < n, ∀ j < m, matched' i j = matched (order.getD i 0) (order'.getD j 0)) :
    ((pairsOf how n m matched').map (Prod.map (order.getD · 0) (Option.map (order'.getD · 0)))).Perm
      (pairsOf how n m matched) := by
  have hpairs (test : Nat → Nat → Bool) : pairsOf how n m test =
      (List.range n).flatMap fun i => pairsWith how i ((List.range m).filter (test i)) := rfl
  rw [hpairs, hpairs, List.map_flatMap]
  simp only [map_pairsWith]
  have rows : ((List.range n).flatMap fun i => pairsWith how (order.getD i 0)
      (((List.range m).filter (matched' i)).map (order'.getD · 0))).Perm
        ((List.range n).flatMap fun i => pairsWith how (order.getD i 0)
          ((List.range m).filter (matched (order.getD i 0)))) :=
    List.Perm.flatMap_left _ fun i hi => perm_pairsWith how _
      (perm_filter_order h' (hm i (List.mem_range.1 hi)))
  refine rows.trans ?_
  have left := h.flatMap_right fun i => pairsWith how i ((List.range m).filter (matched i))
  nth_rewrite 1 [← map_getD_order h, List.flatMap_map] at left
  exact left

/-- **Joins of tables with the same rows have the same rows.** -/
theorem SameRows.join {l' r' : Table} {leftOn rightOn : List String} {how : JoinType} {outer : Bool}
    {layout : JoinLayout} (h : l.SameRows l') (h' : r.SameRows r') (hl : l.Conforms s)
    (hl' : l'.Conforms s) (hr : r.Conforms s') (hr' : r'.Conforms s') (hs : s.Distinct) (hs' : s'.Distinct)
    (hmake : JoinLayout.make s s' leftOn rightOn outer = .ok layout) (hne : layout.schema.fields ≠ [])
    (hx : l.join r leftOn rightOn how layout = .ok x) (hy : l'.join r' leftOn rightOn how layout = .ok y) :
    x.SameRows y := by
  obtain ⟨order, horder, rfl⟩ := h.exists_order hl hl' hs.nonempty
  obtain ⟨order', horder', rfl⟩ := h'.exists_order hr hr' hs'.nonempty
  obtain ⟨columns, hx', hconf, hrows⟩ := join_ok how hl hr hs hs' hmake hne rfl
  obtain ⟨columns', hy', hconf', hrows'⟩ := join_ok how hl' hr' hs hs' hmake hne rfl
  obtain rfl := Except.ok.inj (hx.symm.trans hx')
  obtain rfl := Except.ok.inj (hy.symm.trans hy')
  refine .of_rows (conforms_of_columns hconf hne) (conforms_of_columns hconf' hne) ?_
  rw [rowCount_order horder (hl.columns_ne_nil hs.nonempty),
    rowCount_order horder' (hr.columns_ne_nil hs'.nonempty)] at hrows'
  have hpairs := perm_pairsOf how horder horder' (l.areMatched r leftOn rightOn)
    ((l.take order).areMatched (r.take order') leftOn rightOn) fun i hi j hj => by
      unfold areMatched keyAt
      simp only [cell_order horder hi, cell_order horder' hj]
  rw [hrows, hrows']
  refine List.Perm.trans (hpairs.map _).symm (.of_eq ?_)
  rw [List.map_map]
  refine List.map_congr_left fun p hp => ?_
  obtain ⟨hi, hj⟩ := lt_of_mem_pairsOf hp
  obtain ⟨i, j⟩ := p
  simp only [Function.comp, Prod.map, cell_order horder hi]
  refine congrArg _ (List.map_congr_left fun q _ => ?_)
  cases j with
  | none => rfl
  | some j => exact (cell_order horder' (hj j rfl) q.1).symm

end Table

/-! ## Aggregates -/

namespace Aggregate

variable {values values' : List Scalar}

/-- Sums of the same integers are the same, if there are any. -/
theorem exactSum_perm (h : values.Perm values') {total total' : Int64}
    (hsum : exactSum 0 values = some total) (hsum' : exactSum 0 values' = some total') :
    total = total' := by
  have value {xs : List Scalar} {k : Int64} (hk : exactSum 0 xs = some k) :
      k.toInt = ((xs.filterMap Scalar.int?).map Int64.toInt).foldl (· + ·) 0 := by
    rcases @Word.foldlM_exact Word.add? (· + ·) (fun _ _ => rfl)
        (xs.filterMap Scalar.int?) 0 with
      ⟨k', hk', hvalue, -⟩ | ⟨hnone, -⟩
    · obtain rfl := Option.some.inj (hk.symm.trans hk')
      exact hvalue
    · rw [exactSum, hnone] at hk
      cases hk
  refine Int64.toInt_inj.1 ((value hsum).trans (Eq.trans ?_ (value hsum').symm))
  exact ((h.filterMap _).map _).foldl_eq _

section Extreme

variable {choose : Scalar → Scalar → Scalar} {R : Scalar → Scalar → Prop} {P : Scalar → Prop}
  (hmem : ∀ a b, choose a b = a ∨ choose a b = b)
  (hR : ∀ a b, P a → P b → R (choose a b) a ∧ R (choose a b) b)
  (htrans : ∀ a b c, P a → P b → P c → R a b → R b c → R a c) (hrefl : ∀ a, R a a)

include hmem hR htrans hrefl

/-- What is chosen one after the other outdoes all that there is. -/
theorem foldl_outdoes (rest : List Scalar) (v : Scalar) (hv : ∀ w ∈ v :: rest, P w) :
    ∀ w ∈ v :: rest, R (rest.foldl choose v) w := by
  induction rest generalizing v with
  | nil =>
    intro w hw
    obtain rfl := List.mem_singleton.1 hw
    exact hrefl w
  | cons x rest ih =>
    rw [List.forall_mem_cons, List.forall_mem_cons] at hv
    obtain ⟨hv, hx, hrest⟩ := hv
    have hchosen : P (choose v x) := by
      rcases hmem v x with h | h <;> rw [h] <;> assumption
    have hall : ∀ w ∈ choose v x :: rest, P w := List.forall_mem_cons.2 ⟨hchosen, hrest⟩
    have hlast := hall _ (foldl_mem hmem rest (choose v x))
    have hout := ih (choose v x) hall
    rw [List.forall_mem_cons] at hout
    rw [List.foldl_cons, List.forall_mem_cons, List.forall_mem_cons]
    exact ⟨htrans _ _ _ hlast hchosen hv hout.1 (hR v x hv hx).1,
      htrans _ _ _ hlast hchosen hx hout.1 (hR v x hv hx).2, hout.2⟩

/-- Of the same values, in whatever order, the same one is chosen, if no two outdo each other. -/
theorem foldl_choose_perm (hanti : ∀ a b, P a → P b → R a b → R b a → a = b) {v v' : Scalar}
    {rest rest' : List Scalar} (h : (v :: rest).Perm (v' :: rest')) (hv : ∀ w ∈ v :: rest, P w) :
    rest.foldl choose v = rest'.foldl choose v' := by
  have hv' : ∀ w ∈ v' :: rest', P w := fun w hw => hv w (h.mem_iff.2 hw)
  have hin := foldl_mem hmem rest v
  have hin' := foldl_mem hmem rest' v'
  exact hanti _ _ (hv _ hin) (hv' _ hin')
    (foldl_outdoes hmem hR htrans hrefl rest v hv _ (h.mem_iff.2 hin'))
    (foldl_outdoes hmem hR htrans hrefl rest' v' hv' _ (h.mem_iff.1 hin))

end Extreme

section Least

variable {type : DataType}

theorem ne_float_of_admits {v : Scalar} (h : type.admits v = true) (x : Double) : v ≠ .float x := by
  rintro rfl
  cases DataType.isPlain_of_admits h

/-- The order of cells of one plain type. -/
theorem ne_gt_trans {a b c : Scalar} (ha : type.admits a = true) (hb : type.admits b = true)
    (hc : type.admits c = true) (hab : a.compare b ≠ .gt) (hbc : b.compare c ≠ .gt) :
    a.compare c ≠ .gt := by
  rw [Scalar.compare_eq_whole (ne_float_of_admits ha) (ne_float_of_admits hb)] at hab
  rw [Scalar.compare_eq_whole (ne_float_of_admits hb) (ne_float_of_admits hc)] at hbc
  rw [Scalar.compare_eq_whole (ne_float_of_admits ha) (ne_float_of_admits hc)]
  exact Ordering.isLE_iff_ne_gt.1
    (Std.TransCmp.isLE_trans (Ordering.isLE_iff_ne_gt.2 hab) (Ordering.isLE_iff_ne_gt.2 hbc))

theorem compare_self_ne_gt (a : Scalar) : a.compare a ≠ .gt := by
  have hself : a.compare a = .eq := Std.ReflCmp.compare_self
  rw [hself]
  exact Ordering.noConfusion

theorem ne_gt_of_gt {a b : Scalar} (h : a.compare b = .gt) : b.compare a ≠ .gt := by
  rw [Scalar.compare_swap, h]
  exact Ordering.noConfusion

theorem eq_of_ne_gt {a b : Scalar} (ha : type.admits a = true) (hb : type.admits b = true)
    (hab : a.compare b ≠ .gt) (hba : b.compare a ≠ .gt) : a = b := by
  refine DataType.eq_of_ofScalar ha hb ((Scalar.compare_eq_iff (DataType.isPlain_of_admits ha)
    (DataType.isPlain_of_admits hb)).1 ?_)
  rw [Scalar.compare_swap b a] at hba
  cases h : a.compare b with
  | eq => rfl
  | gt => exact absurd h hab
  | lt =>
    rw [h] at hba
    exact absurd rfl hba

variable (h : values.Perm values') (hv : ∀ v ∈ values, type.admits v = true)

include h hv

theorem min_perm : min values = min values' := by
  cases values with
  | nil => rw [h.symm.eq_nil]
  | cons v rest =>
    cases values' with
    | nil => cases h.eq_nil
    | cons v' rest' =>
      refine foldl_choose_perm (R := fun a b => a.compare b ≠ .gt) (fun a b => ?_) (fun a b _ _ => ?_)
        (fun a b c => ne_gt_trans) compare_self_ne_gt (fun a b => eq_of_ne_gt) h hv
      · split <;> simp
      · split
        · exact ⟨ne_gt_of_gt (eq_of_beq ‹_›), compare_self_ne_gt b⟩
        · exact ⟨compare_self_ne_gt a, fun h => ‹¬ _› (by rw [h]; rfl)⟩

theorem max_perm : max values = max values' := by
  cases values with
  | nil => rw [h.symm.eq_nil]
  | cons v rest =>
    cases values' with
    | nil => cases h.eq_nil
    | cons v' rest' =>
      refine foldl_choose_perm (R := fun a b => b.compare a ≠ .gt) (fun a b => ?_) (fun a b _ _ => ?_)
        (fun a b c ha hb hc hba hcb => ne_gt_trans hc hb ha hcb hba) compare_self_ne_gt
        (fun a b ha hb hba hab => eq_of_ne_gt ha hb hab hba) h hv
      · split <;> simp
      · split
        · exact ⟨compare_self_ne_gt a, ne_gt_of_gt (eq_of_beq ‹_›)⟩
        · exact ⟨fun h => ‹¬ _› (by rw [h]; rfl), compare_self_ne_gt b⟩

end Least
end Aggregate

/-- **An aggregate of plain cells does not hang on their order**, if there is one. -/
theorem aggregate_perm {func : AggFunc} {type : DataType} (hf : func.takes type = true)
    {values values' : List Scalar} (hv : ∀ v ∈ values, type.admits v = true) (h : values.Perm values')
    {x y : Scalar} (hx : aggregate func values = .ok x) (hy : aggregate func values' = .ok y) : x = y := by
  have hpresent := h.filter fun v => !v.isNull
  have hadmits : ∀ v ∈ values.filter (fun v => !v.isNull), type.admits v = true ∧ (!v.isNull) = true :=
    fun v hmem => ⟨hv v (List.mem_filter.1 hmem).1, (List.mem_filter.1 hmem).2⟩
  unfold aggregate at hx hy
  dsimp only at hx hy
  generalize values.filter (fun v => !v.isNull) = present at hx hpresent hadmits
  generalize values'.filter (fun v => !v.isNull) = present' at hy hpresent
  have hall : ∀ v ∈ present, type.admits v = true := fun v hmem => (hadmits v hmem).1
  cases func
  case mean | prod | any | all => exact absurd hf Bool.false_ne_true
  case count =>
    cases hx
    cases hy
    rw [hpresent.length_eq]
  case min =>
    cases hx
    cases hy
    exact Aggregate.min_perm hpresent hall
  case max =>
    cases hx
    cases hy
    exact Aggregate.max_perm hpresent hall
  case sum =>
    have hint : ∀ v ∈ present, v.int?.isSome = true := fun v hmem =>
      int?_isSome_of_admits (hadmits v hmem).1 hf (hadmits v hmem).2
    have hint' : ∀ v ∈ present', v.int?.isSome = true := fun v hmem => hint v (hpresent.mem_iff.2 hmem)
    dsimp only at hx hy
    rw [Aggregate.sum_eq hint] at hx
    rw [Aggregate.sum_eq hint'] at hy
    cases hsum : Aggregate.exactSum 0 present with
    | none =>
      rw [hsum] at hx
      cases hx
    | some total =>
      cases hsum' : Aggregate.exactSum 0 present' with
      | none =>
        rw [hsum'] at hy
        cases hy
      | some total' =>
        rw [hsum] at hx
        rw [hsum'] at hy
        cases hx
        cases hy
        rw [Aggregate.exactSum_perm hpresent hsum hsum']

namespace Table

variable {t u : Table} {s : Schema} {keys columns : List String} {func : AggFunc}

section Aggregated

variable (hk : ∀ k ∈ keys, ∃ f, s.field? k = some f)
  (hc : ∀ c ∈ columns, ∃ f, s.field? c = some f ∧ func.takes f.type = true)

include hk hc

/-- The group with the key of a row has the same row in a table with the same rows. -/
theorem SameRows.exists_group (h : t.SameRows u) (ht : t.Conforms s) (hu : u.Conforms s)
    (hs : s.fields ≠ []) (hne : keys ≠ [])
    (hx : ∀ c ∈ columns, ∀ group ∈ t.groupsOf keys, aggregate func (group.map (t.cell c)) =
      .ok (aggregateOf func (group.map (t.cell c))))
    (hy : ∀ c ∈ columns, ∀ group ∈ u.groupsOf keys, aggregate func (group.map (u.cell c)) =
      .ok (aggregateOf func (group.map (u.cell c)))) {i : Nat} (hi : i ∈ t.groupRows keys) :
    ∃ j ∈ u.groupRows keys, u.aggregatedRow keys columns func (u.groupOf keys j) =
      t.aggregatedRow keys columns func (t.groupOf keys i) := by
  obtain ⟨order, horder, rfl⟩ := h.exists_order ht hu hs
  have hcount := rowCount_order horder (ht.columns_ne_nil hs)
  obtain ⟨k, hk', rfl⟩ := exists_getD_order horder (mem_groupRows.1 hi).1
  obtain ⟨j, hj, hkey⟩ := exists_groupRow (hcount.symm ▸ hk')
  have hsame : (t.take order).rowKey keys j = t.rowKey keys (order.getD k 0) :=
    hkey.trans (rowKey_order horder hk')
  refine ⟨j, hj, ?_⟩
  rw [aggregatedRow, aggregatedRow, headD_groupOf hi, headD_groupOf hj,
    (rowKey_eq_iff hu ht hk j (order.getD k 0)).1 hsame]
  refine congrArg _ (List.map_congr_left fun c hc' => ?_)
  obtain ⟨f, hf, htakes⟩ := hc c hc'
  have mem {x : Table} {i : Nat} (hi : i ∈ x.groupRows keys) : x.groupOf keys i ∈ x.groupsOf keys := by
    rw [groupsOf, if_neg hne]
    exact List.mem_map_of_mem hi
  refine aggregate_perm htakes (fun v hv => ?_) ?_ (hy c hc' _ (mem hj)) (hx c hc' _ (mem hi))
  · obtain ⟨i, -, rfl⟩ := List.mem_map.1 hv
    exact hu.admits_cell hf i
  · rw [groupOf, groupOf, hcount]
    refine perm_map_filter_order horder (fun i hi => ?_) fun i hi => cell_order horder hi c
    change ((t.take order).rowKey keys i == (t.take order).rowKey keys j) = _
    rw [hsame, rowKey_order horder hi]
    rfl

/-- **Aggregates of tables with the same rows have the same rows**, if no sum is refused. -/
theorem SameRows.aggregated (h : t.SameRows u) (ht : t.Conforms s) (hu : u.Conforms s)
    (hs : s.fields ≠ [])
    (hx : ∀ c ∈ columns, ∀ group ∈ t.groupsOf keys, aggregate func (group.map (t.cell c)) =
      .ok (aggregateOf func (group.map (t.cell c))))
    (hy : ∀ c ∈ columns, ∀ group ∈ u.groupsOf keys, aggregate func (group.map (u.cell c)) =
      .ok (aggregateOf func (group.map (u.cell c)))) :
    ((t.groupsOf keys).map (t.aggregatedRow keys columns func)).Perm
      ((u.groupsOf keys).map (u.aggregatedRow keys columns func)) := by
  by_cases hne : keys = []
  · -- All rows are one group.
    subst hne
    obtain ⟨order, horder, rfl⟩ := h.exists_order ht hu hs
    have hcount := rowCount_order horder (ht.columns_ne_nil hs)
    simp only [groupsOf, if_pos] at hx hy ⊢
    refine .of_eq (congrArg (fun row => [row]) (List.map_congr_left fun c hc' => ?_))
    obtain ⟨f, hf, htakes⟩ := hc c hc'
    refine aggregate_perm htakes (fun v hv => ?_) ?_ (hx c hc' _ (List.mem_singleton_self _))
      (hy c hc' _ (List.mem_singleton_self _))
    · obtain ⟨i, -, rfl⟩ := List.mem_map.1 hv
      exact ht.admits_cell hf i
    · rw [hcount]
      exact (perm_map_order horder fun i hi => cell_order horder hi c).symm
  · -- A group is known by its key, which is a part of its row.
    have nodup {x : Table} (hx : x.Conforms s) :
        ((x.groupsOf keys).map (x.aggregatedRow keys columns func)).Nodup := by
      rw [groupsOf, if_neg hne, List.map_map]
      refine nodup_groupRows.map_on fun i hi j hj hij => ?_
      refine groupRows_inj hi hj ((rowKey_eq_iff hx hx hk i j).2 ?_)
      have hkeys := (List.append_inj hij (by simp)).1
      rwa [headD_groupOf hi, headD_groupOf hj] at hkeys
    refine (List.perm_ext_iff_of_nodup (nodup ht) (nodup hu)).2 fun row => ?_
    have mem (x : Table) : row ∈ (x.groupsOf keys).map (x.aggregatedRow keys columns func) ↔
        ∃ i ∈ x.groupRows keys, x.aggregatedRow keys columns func (x.groupOf keys i) = row := by
      rw [groupsOf, if_neg hne, List.map_map, List.mem_map]
      rfl
    rw [mem, mem]
    constructor
    · rintro ⟨i, hi, rfl⟩
      exact h.exists_group hk hc ht hu hs hne hx hy hi
    · rintro ⟨i, hi, rfl⟩
      exact h.symm.exists_group hk hc hu ht hs hne hy hx hi

end Aggregated
end Table
end LazyQuery
