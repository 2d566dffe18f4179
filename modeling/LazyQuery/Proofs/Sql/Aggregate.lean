import LazyQuery.Proofs.Sql.Select
import LazyQuery.Proofs.Table.Groups

/-!
# Aggregations, in memory and as queries

The query of an aggregation over a relation that holds a table holds the aggregated table, as long as
no sum leaves the range of integers.

* `evalAggregate?_eq` compares single aggregates: a running sum is the same in both places, and so are
  the least and the greatest of plain values.
* `groups_eq` says that a query forms the same groups, in the same order.
-/

set_option autoImplicit false

namespace LazyQuery

open Sql

namespace Sql

/-! ## Single aggregates -/

/-- A sum of integers is exact as long as all running sums fit. -/
theorem sum?_eq {values : List Scalar} (h : ∀ v ∈ values, v.int?.isSome = true) {total : Int64}
    (hsum : Aggregate.exactSum 0 values = some total) :
    RunningSum.sum? (values.map Datum.ofScalar) = some (.integer total) := by
  have running : ∀ start, Aggregate.exactSum start values = some total →
      (values.map Datum.ofScalar).foldl RunningSum.step (.exact start) = .exact total := by
    clear hsum
    induction values with
    | nil =>
      intro start hsum
      rw [Aggregate.exactSum, List.filterMap_nil, List.foldlM_nil] at hsum
      cases hsum
      rfl
    | cons v rest ih =>
      intro start hsum
      rw [List.forall_mem_cons] at h
      obtain ⟨i, hi⟩ := Option.isSome_iff_exists.1 h.1
      rw [Aggregate.exactSum, List.filterMap_cons_some hi, List.foldlM_cons] at hsum
      cases hadd : Word.add? start i with
      | none =>
        rw [hadd] at hsum
        cases hsum
      | some next =>
        rw [hadd] at hsum
        have hv : Datum.ofScalar v = .integer i := by
          cases v <;> cases hi <;> rfl
        rw [List.map_cons, List.foldl_cons, hv]
        have hstep : RunningSum.step (.exact start) (.integer i) = .exact next := by
          simp [RunningSum.step, Datum.toSummand, hadd]
        rw [hstep]
        exact ih h.2 next hsum
  rw [RunningSum.sum?, running 0 hsum]

theorem extreme_min {values : List Scalar} (h : ∀ v ∈ values, v.isPlain = true) :
    Expr.extreme .gt (values.map Datum.ofScalar) = Datum.ofScalar (Aggregate.min values) := by
  cases values with
  | nil => rfl
  | cons v rest =>
    rw [List.map_cons, Expr.extreme, Aggregate.min]
    rw [List.forall_mem_cons] at h
    obtain ⟨hv, hrest⟩ := h
    induction rest generalizing v with
    | nil => rfl
    | cons w rest ih =>
      rw [List.forall_mem_cons] at hrest
      rw [List.map_cons, List.foldl_cons, List.foldl_cons, Scalar.compare_ofScalar hv hrest.1]
      split
      · exact ih w hrest.1 hrest.2
      · exact ih v hv hrest.2

/-- Equal values are stored as the same value, so that it does not matter which of them is chosen. -/
theorem extreme_max {values : List Scalar} (h : ∀ v ∈ values, v.isPlain = true) :
    Expr.extreme .lt (values.map Datum.ofScalar) = Datum.ofScalar (Aggregate.max values) := by
  cases values with
  | nil => rfl
  | cons v rest =>
    rw [List.map_cons, Expr.extreme, Aggregate.max]
    rw [List.forall_mem_cons] at h
    obtain ⟨hv, hrest⟩ := h
    induction rest generalizing v with
    | nil => rfl
    | cons w rest ih =>
      rw [List.forall_mem_cons] at hrest
      have heq := Scalar.compare_eq_iff hv hrest.1
      rw [List.map_cons, List.foldl_cons, List.foldl_cons, Scalar.compare_ofScalar hv hrest.1]
      cases hcmp : v.compare w with
      | lt => exact ih w hrest.1 hrest.2
      | eq =>
        rw [hcmp] at heq
        rw [if_neg (by decide), heq.1 rfl]
        exact ih w hrest.1 hrest.2
      | gt => exact ih v hv hrest.2

/-- **An aggregate of stored cells is the stored aggregate.** -/
theorem evalAggregate?_eq {scope : Scope} {rows : List (List Datum)} {func : AggFunc} {e : Expr}
    {type : DataType} {values : List Scalar} {v : Scalar} (htakes : func.takes type = true)
    (hv : ∀ v ∈ values, type.admits v = true)
    (he : (rows.map fun row => e.eval scope row) = values.map Datum.ofScalar)
    (h : aggregate func values = .ok v) :
    e.evalAggregate? scope rows func = some (Datum.ofScalar v) := by
  have hpresent : (rows.map fun row => e.eval scope row).filter (fun v => !v.isNull) =
      (values.filter fun v => !v.isNull).map Datum.ofScalar := by
    rw [he]
    exact Datum.present_ofScalar fun v hmem => Datum.isNull_ofScalar (DataType.isPlain_of_admits (hv v hmem))
  have hadmits : ∀ v ∈ values.filter (fun v => !v.isNull), type.admits v = true ∧ (!v.isNull) = true :=
    fun v hmem => ⟨hv v (List.mem_filter.1 hmem).1, (List.mem_filter.1 hmem).2⟩
  unfold aggregate at h
  unfold Expr.evalAggregate?
  dsimp only at h ⊢
  rw [hpresent]
  generalize values.filter (fun v => !v.isNull) = present at h hadmits
  have hplain : ∀ v ∈ present, v.isPlain = true :=
    fun v hmem => DataType.isPlain_of_admits (hadmits v hmem).1
  cases func
  case mean | prod | any | all => exact absurd htakes Bool.false_ne_true
  case count =>
    cases h
    rw [List.length_map]
    rfl
  case sum =>
    have hint : ∀ v ∈ present, v.int?.isSome = true := fun v hmem =>
      int?_isSome_of_admits (hadmits v hmem).1 htakes (hadmits v hmem).2
    dsimp only at h ⊢
    rw [Aggregate.sum_eq hint] at h
    cases hsum : Aggregate.exactSum 0 present with
    | none =>
      rw [hsum] at h
      cases h
    | some total =>
      rw [hsum] at h
      cases h
      exact sum?_eq hint hsum
  case min =>
    cases h
    exact congrArg some (extreme_min hplain)
  case max =>
    cases h
    exact congrArg some (extreme_max hplain)

/-! ## Groups -/

variable {table : String} {s : Schema} {t : Table} {scope : Scope} {rowAt : Nat → List Datum}
  {keys columns : List String} {func : AggFunc}

/-- The stored values of some columns in a row. -/
theorem map_column_eval (hs : scope.Shows table s 0) {row : List Datum} {cell : String → Scalar}
    (hrow : RowShows row s 0 cell) (h : ∀ n ∈ keys, n ∈ s.names) :
    ((keys.map fun k => Expr.column table k).map fun e => e.eval scope row) =
      (keys.map cell).map Datum.ofScalar := by
  rw [List.map_map, List.map_map]
  refine List.map_congr_left fun n hn => ?_
  obtain ⟨f, hf⟩ := Schema.field?_isSome (h n hn)
  exact Expr.eval_column hs hrow hf

/-- Keys of stored values are compared like the cells. -/
theorem compareKeys_ascending {exprs : List Expr} {xs ys : List Scalar}
    (hx : ∀ v ∈ xs, v.isPlain = true) (hy : ∀ v ∈ ys, v.isPlain = true)
    (hlen : exprs.length = xs.length) (hlen' : exprs.length = ys.length) :
    Select.compareKeys (exprs.map fun e => SortKey.mk e none) (xs.map Datum.ofScalar)
      (ys.map Datum.ofScalar) = Scalar.compareTuple xs ys := by
  induction exprs generalizing xs ys with
  | nil =>
    rw [List.length_eq_zero_iff.1 hlen.symm, List.length_eq_zero_iff.1 hlen'.symm]
    rfl
  | cons e exprs ih =>
    cases xs with
    | nil => simp at hlen
    | cons x xs =>
      cases ys with
      | nil => simp at hlen'
      | cons y ys =>
        rw [List.forall_mem_cons] at hx hy
        rw [List.map_cons, List.map_cons, List.map_cons, Select.compareKeys, Scalar.compareTuple,
          Scalar.compare_ofScalar hx.1 hy.1, ih hx.2 hy.2 (by simpa using hlen) (by simpa using hlen')]
        rfl

/-- **A query forms the groups that are formed in memory**, in the same order. -/
theorem groups_eq (ht : t.Conforms s) (hs : scope.Shows table s 0)
    (hrow : ∀ i, RowShows (rowAt i) s 0 (t.cell · i)) (hk : ∀ n ∈ keys, n ∈ s.names) (hne : keys ≠ [])
    {sel : Select} (hsel : sel.groupBy = keys.map fun k => .column table k) :
    sel.groups scope ((List.range t.rowCount).map rowAt) =
      (t.groupRows keys).map fun i => (t.groupOf keys i).map rowAt := by
  have plain : ∀ i, ∀ v ∈ keys.map (t.cell · i), v.isPlain = true := by
    intro i v hv
    obtain ⟨n, hn, rfl⟩ := List.mem_map.1 hv
    obtain ⟨f, hf⟩ := Schema.field?_isSome (hk n hn)
    exact DataType.isPlain_of_admits (ht.admits_cell hf i)
  have same : ∀ i j, Datum.sameTuple ((keys.map (t.cell · i)).map Datum.ofScalar)
      ((keys.map (t.cell · j)).map Datum.ofScalar) = true ↔
        Scalar.keyOf (keys.map (t.cell · i)) = Scalar.keyOf (keys.map (t.cell · j)) := by
    have stored : ∀ i, ∀ d ∈ (keys.map (t.cell · i)).map Datum.ofScalar, d.isPlain = true := by
      intro i d hd
      obtain ⟨v, hv, rfl⟩ := List.mem_map.1 hd
      exact Datum.isPlain_ofScalar (plain i v hv)
    intro i j
    rw [Datum.sameTuple_iff (stored i) (stored j), Scalar.keyOf_eq_iff (plain i) (plain j) (by simp)]
  have hkeyed : ((List.range t.rowCount).map rowAt).map (fun row =>
      (sel.groupBy.map fun e => e.eval scope row, row)) =
        (List.range t.rowCount).map fun i => ((keys.map (t.cell · i)).map Datum.ofScalar, rowAt i) := by
    rw [List.map_map]
    refine List.map_congr_left fun i _ => ?_
    rw [Function.comp, hsel, map_column_eval hs (hrow i) hk]
  have hfirsts := foldl_firsts (n := t.rowCount) (fun i => (keys.map (t.cell · i)).map Datum.ofScalar)
    (fun i => Scalar.keyOf (keys.map (t.cell · i))) (fun a b => Datum.sameTuple b a)
    fun i _ j _ => (same j i).trans eq_comm
  have hnone : sel.groupBy.isEmpty = false := by
    rw [hsel]
    cases keys with
    | nil => exact absurd rfl hne
    | cons => rfl
  unfold Select.groups
  rw [hnone, if_neg Bool.false_ne_true, hkeyed]
  dsimp only
  rw [List.foldl_map]
  rw [List.foldl_map] at hfirsts
  dsimp only
  rw [hfirsts, ← List.map_mergeSort (r := fun i j =>
    Scalar.compareTuple (keys.map (t.cell · i)) (keys.map (t.cell · j)) != .gt), List.map_map]
  · refine List.map_congr_left fun i _ => ?_
    rw [Function.comp, List.filter_map, List.map_map, Table.groupOf]
    refine congrArg (List.map rowAt) (List.filter_congr fun j _ => ?_)
    exact Bool.eq_iff_iff.2 ((same i j).trans (by rw [beq_iff_eq, eq_comm]))
  · intro i _ j _
    rw [hsel, compareKeys_ascending (plain i) (plain j) (by simp) (by simp)]

/-- The output for a group of rows: the key cells of its first row and the aggregates. -/
theorem outputOf?_group (ht : t.Conforms s) (hs : scope.Shows table s 0)
    (hrow : ∀ i, RowShows (rowAt i) s 0 (t.cell · i)) (hk : ∀ n ∈ keys, n ∈ s.names)
    {group : List Nat} (hgroup : keys = [] ∨ group ≠ [])
    (hc : ∀ n ∈ columns, (∃ g, s.field? n = some g ∧ func.takes g.type = true) ∧
      aggregate func (group.map (t.cell n)) = .ok (aggregateOf func (group.map (t.cell n))))
    {sel : Select} (hitems : sel.items = (keys.map fun k => ⟨.column table k, none⟩) ++
      columns.map fun c => ⟨.aggregate func (.column table c), some c⟩)
    (horder : sel.orderBy = keys.map fun k => ⟨.column table k, none⟩) :
    ∃ order, sel.outputOf? scope (group.map rowAt) = some
      ((t.aggregatedRow keys columns func group).map Datum.ofScalar, order) := by
  have hkey : ∀ k ∈ keys, (Expr.column table k).evalGroup? scope (group.map rowAt) =
      some (Datum.ofScalar (t.cell k (group.headD 0))) := by
    intro k hk'
    obtain ⟨f, hf⟩ := Schema.field?_isSome (hk k hk')
    cases group with
    | nil => exact absurd (hgroup.resolve_right (by simp)) (List.ne_nil_of_mem hk')
    | cons i rest => exact congrArg some (Expr.eval_column hs (hrow i) hf)
  have hagg : ∀ n ∈ columns, (Expr.aggregate func (.column table n)).evalGroup? scope (group.map rowAt) =
      some (Datum.ofScalar (aggregateOf func (group.map (t.cell n)))) := by
    intro n hn
    obtain ⟨⟨g, hg, htakes⟩, hok⟩ := hc n hn
    refine evalAggregate?_eq htakes (fun v hv => ?_) ?_ hok
    · obtain ⟨i, -, rfl⟩ := List.mem_map.1 hv
      exact ht.admits_cell hg i
    · rw [List.map_map, List.map_map]
      exact List.map_congr_left fun i _ => Expr.eval_column hs (hrow i) hg
  have hout : (sel.items.mapM fun i => i.expr.evalGroup? scope (group.map rowAt)) = some
      ((t.aggregatedRow keys columns func group).map Datum.ofScalar) := by
    refine mapM_eq_some_of_forall₂ ?_
    rw [hitems, Table.aggregatedRow, List.map_append, List.map_map, List.map_map]
    refine List.rel_append ?_ ?_
    · rw [List.forall₂_map_left_iff, List.forall₂_map_right_iff]
      exact List.forall₂_same.2 hkey
    · rw [List.forall₂_map_left_iff, List.forall₂_map_right_iff]
      exact List.forall₂_same.2 hagg
  have horder : ∃ order, (sel.orderBy.mapM fun k => k.expr.evalGroup? scope (group.map rowAt)) =
      some order := by
    refine ⟨keys.map fun k => Datum.ofScalar (t.cell k (group.headD 0)), mapM_eq_some_of_forall₂ ?_⟩
    rw [horder, List.forall₂_map_left_iff, List.forall₂_map_right_iff]
    exact List.forall₂_same.2 hkey
  obtain ⟨order, horder⟩ := horder
  refine ⟨order, ?_⟩
  rw [Select.outputOf?, hout, horder]
  rfl

/-! ## The query of an aggregation -/

/-- A query that sorts by the keys that it groups by yields one row for each group. -/
theorem delivery_grouped {sel : Select} {asked : Bool} {rows : List (List Datum)}
    (hg : sel.isGrouped = true) (hc : sel.condition? = none) (hd : sel.distinct = false)
    (hl : sel.limit? = none) (ho : sel.orderBy = sel.groupBy.map fun e => ⟨e, none⟩)
    (hr : sel.isRefused scope asked = false) {groups : List (List Nat)}
    (hgroups : sel.groups scope rows = groups.map fun group => group.map rowAt)
    {cells : List Nat → List Datum}
    (h : ∀ group ∈ groups, ∃ order, sel.outputOf? scope (group.map rowAt) = some (cells group, order)) :
    sel.delivery scope asked (.ofRows rows) = .ofRows (groups.map cells) := by
  have hsorted : (sel.orderBy.isEmpty || sel.isSortedByGroups) = true := by
    have hexprs : sel.orderBy.map SortKey.expr = sel.groupBy := by
      rw [ho, List.map_map]
      exact List.map_id _
    have hascending : (sel.orderBy.all fun k => k.ascending? != some false) = true := by
      rw [ho]
      simp
    rw [Select.isSortedByGroups, hg, hexprs, hascending]
    simp
  have hout : (Delivery.ofRows (sel.groups scope rows)).filterMapWhile (sel.outputOf? scope) =
      .ofRows (groups.map fun group =>
        (cells group, ((sel.outputOf? scope (group.map rowAt)).map (·.2)).getD [])) := by
    rw [hgroups, Delivery.filterMapWhile_map]
    refine Delivery.filterMapWhile_ofRows fun group hgroup => ?_
    obtain ⟨order, horder⟩ := h group hgroup
    rw [Function.comp, horder]
    rfl
  rw [Select.delivery, Select.kept, hc, hr, hg, hd, hsorted]
  simp only [Option.elim_none, List.foldl_nil, Delivery.barring_false, if_true,
    Delivery.gather_ofRows, hout, Bool.false_eq_true, if_false, Select.cutOff, hl, Delivery.map_ofRows,
    List.map_map]
  rfl

variable {n : Node} {catalog : Catalog} {asked : Bool} {r : Relation} {keyFields fields : List Field}

theorem items_aggregateSelect : (Graph.aggregateSelect n func keys columns).items =
    (keys.map fun k => ⟨.column n.name k, none⟩) ++
      columns.map fun c => ⟨.aggregate func (.column n.name c), some c⟩ := by
  simp only [Graph.aggregateSelect, List.map_map]
  rfl

theorem orderBy_aggregateSelect : (Graph.aggregateSelect n func keys columns).orderBy =
    keys.map fun k => ⟨.column n.name k, none⟩ := by
  simp only [Graph.aggregateSelect, List.map_map]
  rfl

/-- The items of an aggregation, each of which can be computed and fits its field. -/
theorem fits_aggregateSelect (asked : Bool) (hs : scope.Shows n.name n.schema 0)
    (hk : List.Forall₂ (fun k f => n.schema.field? k = some f) keys keyFields)
    (hf : List.Forall₂ (Table.AggregatedBy n.schema func) columns fields) (sel : Select) :
    List.Forall₂ (fun (i : Item) f => i.expr.wellScoped scope = true ∧ i.expr.isRefused scope = false ∧
      (sel.heading scope asked i).Fits f) (Graph.aggregateSelect n func keys columns).items
        (keyFields ++ fields) := by
  rw [items_aggregateSelect]
  refine List.rel_append ?_ ?_
  · rw [List.forall₂_map_left_iff]
    refine hk.imp fun k f hf => ?_
    have hi := Item.Fits.column n.name hf
    refine ⟨hi.hasType.found hs, hi.hasType.computed hs, hi.name hs, hi.hasType.suits hs, ?_⟩
    rw [Select.heading, hi.hasType.computed hs, Bool.and_false]
  · rw [List.forall₂_map_left_iff]
    refine hf.imp fun c f hcf => ?_
    obtain ⟨g, hg, -, hname, -⟩ := hcf
    have he : (Expr.column n.name c).HasType n.name n.schema g.type := .column hg
    refine ⟨he.found hs, he.computed hs, hname.symm, rfl, ?_⟩
    rw [Select.heading, show (Expr.aggregate func (.column n.name c)).isRefused scope = false from
      he.computed hs, Bool.and_false]

theorem isRefused_aggregateSelect (asked : Bool) (hs : scope.Shows n.name n.schema 0)
    (hk : List.Forall₂ (fun k f => n.schema.field? k = some f) keys keyFields)
    (hf : List.Forall₂ (Table.AggregatedBy n.schema func) columns fields) :
    (Graph.aggregateSelect n func keys columns).wellFormed scope = true ∧
      (Graph.aggregateSelect n func keys columns).isRefused scope asked = false := by
  have hitems := fits_aggregateSelect asked hs hk hf (Graph.aggregateSelect n func keys columns)
  have item : ∀ i ∈ (Graph.aggregateSelect n func keys columns).items,
      i.expr.wellScoped scope = true ∧ i.expr.isRefused scope = false := by
    intro i hi
    obtain ⟨j, hj, rfl⟩ := List.getElem_of_mem hi
    have h := hitems.get hj (hitems.length_eq ▸ hj)
    exact ⟨h.1, h.2.1⟩
  have key : ∀ k ∈ keys, (Expr.column n.name k).wellScoped scope = true ∧
      (Expr.column n.name k).isRefused scope = false := by
    intro k hk'
    obtain ⟨j, hj, rfl⟩ := List.getElem_of_mem hk'
    have hfield := hk.get hj (hk.length_eq ▸ hj)
    exact ⟨(Expr.HasType.column hfield).found hs, (Expr.HasType.column hfield).computed hs⟩
  have hgroup : (Graph.aggregateSelect n func keys columns).groupBy =
      keys.map fun k => .column n.name k := rfl
  constructor
  · have hi : ((Graph.aggregateSelect n func keys columns).items.all fun i =>
        i.expr.wellScoped scope) = true := List.all_eq_true.2 fun i hi => (item i hi).1
    have hc : (Graph.aggregateSelect n func keys columns).condition? = none := rfl
    rw [Select.wellFormed, hi, hc, orderBy_aggregateSelect, hgroup]
    simpa using fun k hk => (key k hk).1
  · have hi : ((Graph.aggregateSelect n func keys columns).items.any fun i =>
        i.expr.isRefused scope) = false := by
      simpa using fun i hi => (item i hi).2
    rw [Select.isRefused, hi, orderBy_aggregateSelect, hgroup]
    simpa using fun k hk => (key k hk).2

/-- The query of an aggregation, whatever rows the relation has. -/
theorem aggregate_eval? (asked : Bool) (hc : catalog n.name = some r)
    (hr : List.Forall₂ Heading.Fits r.columns n.schema.fields) (hs : n.schema.Apart)
    (hk : List.Forall₂ (fun k f => n.schema.field? k = some f) keys keyFields)
    (hf : List.Forall₂ (Table.AggregatedBy n.schema func) columns fields) :
    ∃ r', (Graph.aggregateSelect n func keys columns).eval? catalog asked = some r' ∧
      List.Forall₂ Heading.Fits r'.columns (keyFields ++ fields) ∧ r'.numbers? = none ∧
        r'.toDelivery = (Graph.aggregateSelect n func keys columns).delivery
          (Scope.ofNumbered n.name r) asked r.numberedRows := by
  have hshows := shows_ofNumbered n.name hr hs
  obtain ⟨r', hr', hcolumns, hdelivery, hnumbers⟩ := Select.eval?_isSome asked
    (Select.reads?_table rfl hc) (isRefused_aggregateSelect asked hshows hk hf).1
  refine ⟨r', hr', ?_, hnumbers, hdelivery⟩
  rw [hcolumns, List.forall₂_map_left_iff]
  exact (fits_aggregateSelect _ hshows hk hf _).imp fun i f h => h.2.2

/-- **The query of an aggregation yields the aggregates of each group**, unless a sum is refused. -/
theorem aggregate_rows (asked : Bool) (hc : catalog n.name = some r) (hr : r.Holds t n.schema)
    (ht : t.Conforms n.schema) (hs : n.schema.Apart)
    (hk : List.Forall₂ (fun k f => n.schema.field? k = some f) keys keyFields)
    (hf : List.Forall₂ (Table.AggregatedBy n.schema func) columns fields) (hne : columns ≠ [])
    (hok : ∀ c ∈ columns, ∀ group ∈ t.groupsOf keys, aggregate func (group.map (t.cell c)) =
      .ok (aggregateOf func (group.map (t.cell c)))) :
    ∃ r', (Graph.aggregateSelect n func keys columns).eval? catalog asked = some r' ∧
      List.Forall₂ Heading.Fits r'.columns (keyFields ++ fields) ∧ r'.numbers? = none ∧
        r'.toDelivery = .ofRows ((t.groupsOf keys).map fun group =>
          (t.aggregatedRow keys columns func group).map Datum.ofScalar) := by
  obtain ⟨r', hr', hh, hn, hdelivery⟩ := aggregate_eval? asked hc hr.headings hs hk hf
  obtain ⟨back, hrows⟩ := hr.numberedRows
  have hshows := shows_ofNumbered n.name hr.headings hs
  have hrow : ∀ i, RowShows (storedRow t i ++ back i) n.schema 0 (t.cell · i) :=
    fun i => rowShows_storedRow ht hs.nodup (back i) i
  have hnames : ∀ k ∈ keys, k ∈ n.schema.names := by
    intro k hk'
    obtain ⟨j, hj, rfl⟩ := List.getElem_of_mem hk'
    have hfield := hk.get hj (hk.length_eq ▸ hj)
    exact List.mem_map.2 ⟨_, Schema.mem_of_field? hfield, Schema.field?_name hfield⟩
  have hcolumns : ∀ c ∈ columns, ∃ g, n.schema.field? c = some g ∧ func.takes g.type = true := by
    intro c hc
    obtain ⟨j, hj, rfl⟩ := List.getElem_of_mem hc
    obtain ⟨g, hg, htakes, -⟩ := hf.get hj (hf.length_eq ▸ hj)
    exact ⟨g, hg, htakes⟩
  have hgrouped : (Graph.aggregateSelect n func keys columns).isGrouped = true := by
    rw [Select.isGrouped, items_aggregateSelect]
    cases columns with
    | nil => exact absurd rfl hne
    | cons c rest => simp [Expr.isAggregate]
  have hgroups : (Graph.aggregateSelect n func keys columns).groups (Scope.ofNumbered n.name r)
      ((List.range t.rowCount).map fun i => storedRow t i ++ back i) =
        (t.groupsOf keys).map fun group => group.map fun i => storedRow t i ++ back i := by
    rw [Table.groupsOf]
    split
    · rename_i hnil
      subst hnil
      rfl
    · rename_i hkeys
      rw [groups_eq ht hshows hrow hnames hkeys rfl, List.map_map]
      rfl
  refine ⟨r', hr', hh, hn, ?_⟩
  rw [hdelivery, hrows, delivery_grouped hgrouped rfl rfl rfl rfl
    (isRefused_aggregateSelect _ hshows hk hf).2 hgroups fun group hgroup => ?_]
  refine outputOf?_group ht hshows hrow hnames ?_ (fun c hc => ⟨hcolumns c hc, hok c hc group hgroup⟩)
    items_aggregateSelect orderBy_aggregateSelect
  rw [Table.groupsOf] at hgroup
  split at hgroup
  · exact .inl (by assumption)
  · -- A group is not empty, as it has a first row.
    obtain ⟨i, hi, rfl⟩ := List.mem_map.1 hgroup
    rw [Table.groupRows, List.mem_mergeSort] at hi
    exact .inr (List.ne_nil_of_mem
      (List.mem_filter.2 ⟨List.mem_range.2 (mem_firstPositions.1 hi).1, beq_self_eq_true _⟩))

end Sql
end LazyQuery
