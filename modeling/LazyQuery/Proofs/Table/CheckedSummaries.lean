import LazyQuery.Proofs.Summary.Quantiles
import LazyQuery.Proofs.Table.CheckedRows
import LazyQuery.Result

/-!
# Summaries of tables, checked

Aggregations of groups, statistics, and the collapse of a row, with every row number, every place of a column
and every place among sorted values looked at before it is read. The first row of a group is read for its key
cells: groups are not empty (`mem_classes`). Groups are sorted, and the sort may give up where a key cell
straddles two others. Quantiles are read between the first and the last value
(`Describe.places_lt`).
-/

set_option autoImplicit false

namespace LazyQuery.Checked

variable {t : Table} {keys names : List String} {func : AggFunc}

/-! ## Groups -/

theorem mem_positionsOf {keys : List Key} {k : Key} {i : Nat} (h : i ∈ positionsOf keys k) :
    i < keys.length := by
  obtain ⟨p, hp, rfl⟩ := List.mem_map.1 h
  exact List.snd_lt_of_mem_zipIdx (List.mem_filter.1 hp).1

theorem positionsOf_ne_nil {keys : List Key} {k : Key} (h : k ∈ keys) : positionsOf keys k ≠ [] := by
  obtain ⟨i, hi, rfl⟩ := List.getElem_of_mem h
  refine List.ne_nil_of_mem (a := i) (List.mem_map.2 ⟨(keys[i], i), ?_, rfl⟩)
  exact List.mem_filter.2 ⟨List.mk_mem_zipIdx_iff_getElem?.2 (List.getElem?_eq_getElem hi), beq_self_eq_true _⟩

/-- A class of keys is not empty, and its members are positions of keys. -/
theorem mem_classes {digests : List Key} {g : List Nat} (h : g ∈ classes digests) :
    g ≠ [] ∧ ∀ i ∈ g, i < digests.length := by
  rw [classes_eq] at h
  obtain ⟨k, hk, rfl⟩ := List.mem_map.1 h
  exact ⟨positionsOf_ne_nil (mem_firstKeys.1 hk), fun i => mem_positionsOf⟩

/-- Groups are not empty, and hold rows of the table. -/
def AreGroups (t : Table) (gs : List (List Nat)) : Prop := ∀ g ∈ gs, g ≠ [] ∧ ∀ i ∈ g, i < t.rowCount

theorem areGroups_classes {digests : List Key} (h : t.rowDigests keys = .ok digests) :
    AreGroups t (classes digests) :=
  fun _ hg => length_rowDigests h ▸ mem_classes hg

theorem areGroups_groups {gs : List (List Nat)} (h : t.groups keys = .ok gs) : AreGroups t gs := by
  obtain ⟨digests, hdigests, h⟩ := bind_eq_ok.1 h
  obtain ⟨_, -, h⟩ := bind_eq_ok.1 h
  obtain rfl := Except.ok.inj h
  exact fun g hg => areGroups_classes hdigests g (List.mem_mergeSort.1 hg)

/-- The cell of a column in the first row of a group. -/
def firstCell (g : List Nat) (c : Column) : Checked Scalar := do
  let row ← place g 0
  place c.values row

theorem firstCell_eq {g : List Nat} {c : Column} (hg : g ≠ []) (h : ∀ i ∈ g, i < c.values.length) :
    firstCell g c = .ok (c.values.getD (g.headD 0) .null) := by
  cases g with
  | nil => exact absurd rfl hg
  | cons i rest => exact place_eq (h i List.mem_cons_self) .null

theorem length_of_mem_keyColumns (ht : t.Level) {columns : List Column} (h : t.keyColumns keys = .ok columns)
    {c : Column} (hc : c ∈ columns) : c.values.length = t.rowCount := by
  obtain ⟨k, -, hk⟩ := exists_of_mem_right (Table.keyColumns_eq_ok.1 h) hc
  exact ht c (List.mem_of_find?_eq_some hk)

/-- The groups of equal keys, each with the key cells of its first row. -/
def taggedGroups (t : Table) (keys : List String) : Checked (List (List Nat × List Scalar)) := do
  let digests ← rowDigests t keys
  let gs ← collect digests
  let columns ← plain ((t.keyColumns keys).mapError .plan)
  gs.mapM fun g => do
    let tuple ← columns.mapM (firstCell g)
    pure (g, tuple)

/-- The classes of rows, with the cells of their first rows. -/
def tagged (columns : List Column) (digests : List Key) : List (List Nat × List Scalar) :=
  (classes digests).map fun g => (g, Table.cells columns (g.headD 0))

theorem taggedGroups_mirrors (ht : t.Level) (keys : List String) :
    Mirrors (fun gs p => gs = tagged p.2 p.1) (taggedGroups t keys) (do
      let digests ← (t.rowDigests keys).mapError .plan
      let columns ← (t.keyColumns keys).mapError .plan
      pure (digests, columns)) := by
  refine (rowDigests_mirrors ht keys).bind_eq fun digests hdigests => ?_
  rw [collect_eq, ok_bind]
  refine (mirrors_plain _).bind_eq fun columns hcolumns => ⟨_, mapM_eq_map fun g hg => ?_, rfl⟩
  have hlength := length_rowDigests (mapError_eq_ok.1 hdigests)
  obtain ⟨hne, hlt⟩ := mem_classes hg
  rw [mapM_eq_map fun c hc => firstCell_eq hne ?_]
  · rfl
  · rw [length_of_mem_keyColumns ht (mapError_eq_ok.1 hcolumns) hc, ← hlength]
    exact hlt

/-- The row numbers of each group of equal keys, groups in the order of their first rows' cells. -/
def groups (sorter : Sorter) (t : Table) (keys : List String) : Checked (List (List Nat)) := do
  let gs ← taggedGroups t keys
  let gs ← sorted sorter (fun a b => Scalar.compareTuple a.2 b.2) gs
  pure (gs.map (·.1))

theorem groups_inRange (ht : t.Level) (sorter : Sorter) (keys : List String) :
    InRange (AreGroups t) (groups sorter t keys) := by
  have htagged : InRange (fun gs => AreGroups t (gs.map (·.1))) (taggedGroups t keys) :=
    (taggedGroups_mirrors ht keys).inRange fun gs p hp hgs => by
      obtain ⟨digests, hdigests, hp⟩ := bind_eq_ok.1 hp
      obtain ⟨columns, -, hp⟩ := bind_eq_ok.1 hp
      obtain rfl := Except.ok.inj hp
      rw [hgs, tagged, List.map_map]
      exact (List.map_id (classes digests)).symm ▸ areGroups_classes (mapError_eq_ok.1 hdigests)
  exact htagged.bind fun gs hgs => (sorted_inRange sorter _ gs).bind fun sorted hperm g hg =>
    hgs g ((hperm.map _).mem_iff.1 hg)

theorem compareTuple_cells (columns : List Column) (i j : Nat) :
    Scalar.compareTuple (Table.cells columns i) (Table.cells columns j) =
      Table.compareRows (columns.map fun c => (c, true)) i j := by
  induction columns with
  | nil => rfl
  | cons c rest ih =>
    rw [List.map_cons, compareRows_cons, ← ih, Scalar.directed, if_pos rfl]
    change Scalar.compareTuple (c.values.getD i .null :: Table.cells rest i)
      (c.values.getD j .null :: Table.cells rest j) = _
    rw [Scalar.compareTuple]
    cases (c.values.getD i .null).compare (c.values.getD j .null) <;> rfl

/-- Groups by columns in which nothing straddles are sorted, as the sort does not give up. -/
theorem groups_mirrors (ht : t.Level) (sorter : Sorter)
    (h : ∀ k ∈ keys, ∀ c, t.column? k = some c → ¬ Straddled c.values) :
    Mirrors Eq (groups sorter t keys) ((t.groups keys).mapError .plan) := by
  have hgroups : (t.groups keys).mapError FrameError.plan = (do
      let digests ← (t.rowDigests keys).mapError .plan
      let columns ← (t.keyColumns keys).mapError .plan
      pure (digests, columns)) >>= fun p => pure ((classes p.1).mergeSort fun a b =>
        Scalar.compareTuple (Table.cells p.2 (a.headD 0)) (Table.cells p.2 (b.headD 0)) != .gt) := by
    simp only [Table.groups, mapError_bind, bind_assoc, pure_bind]
    rfl
  rw [hgroups]
  refine (taggedGroups_mirrors ht keys).bind fun gs p hp hgs => mirrors_eq_iff.2 ?_
  obtain ⟨digests, hdigests, hp⟩ := bind_eq_ok.1 hp
  obtain ⟨columns, hcolumns, hp⟩ := bind_eq_ok.1 hp
  obtain rfl := Except.ok.inj hp
  have hcolumns := Table.keyColumns_eq_ok.1 (mapError_eq_ok.1 hcolumns)
  have hclasses := areGroups_classes (mapError_eq_ok.1 hdigests)
  have hsorts : Sorts (fun a b => Scalar.compareTuple a.2 b.2) gs := by
    rw [hgs, tagged]
    refine sorts_of_rows (fun x => x.1.headD 0) (columns.map fun c => (c, true)) (fun x hx y hy => ?_)
      fun k hk => ?_
    · obtain ⟨g, -, rfl⟩ := List.mem_map.1 hx
      obtain ⟨g', -, rfl⟩ := List.mem_map.1 hy
      exact compareTuple_cells columns _ _
    · obtain ⟨c, hc, rfl⟩ := List.mem_map.1 hk
      obtain ⟨name, hname, hc⟩ := exists_of_mem_right hcolumns hc
      refine ⟨h name hname _ hc, fun x hx => ?_⟩
      obtain ⟨g, hg, rfl⟩ := List.mem_map.1 hx
      obtain ⟨hne, hlt⟩ := hclasses g hg
      rw [ht _ (List.mem_of_find?_eq_some hc)]
      exact hlt _ (by cases g with | nil => exact absurd rfl hne | cons i rest => exact List.mem_cons_self)
  rw [sorted_eq hsorts, ok_bind, hgs, tagged, mergeSort_tagged (fun g : List Nat =>
    Table.cells columns (g.headD 0)) fun a b => Scalar.compareTuple a b != .gt]
  rfl

/-- The key columns of groups: under each key the cells of the first rows. -/
def keyCells (keys : List String) (keyColumns : List Column) (gs : List (List Nat)) :
    Checked (List Column) :=
  keyColumns.zipIdx.mapM fun (c, i) => do
    let key ← place keys i
    let values ← gs.mapM fun g => firstCell g c
    pure (Column.mk key values)

theorem keyCells_eq (ht : t.Level) {gs : List (List Nat)} (hgs : AreGroups t gs)
    {keyColumns : List Column} (hkeys : t.keyColumns keys = .ok keyColumns) :
    keyCells keys keyColumns gs = .ok ((keys.zip keyColumns).map fun (k, c) =>
      ⟨k, gs.map fun g => c.values.getD (g.headD 0) .null⟩) := by
  -- There is a key at the place of each key column.
  have hlength := (Table.keyColumns_eq_ok.1 hkeys).length_eq
  rw [keyCells, mapM_eq_map (y := fun p =>
    ⟨keys.getD p.2 "", gs.map fun g => p.1.values.getD (g.headD 0) .null⟩)]
  · refine congrArg _ (List.ext_getElem (by simp [hlength]) fun i hi _ => ?_)
    have hi : i < keys.length := by simpa [hlength] using hi
    simp [hi]
  · rintro ⟨c, i⟩ hp
    have hc := List.mk_mem_zipIdx_iff_getElem?.1 hp
    obtain ⟨hi, -⟩ := List.getElem?_eq_some_iff.1 hc
    dsimp only
    rw [place_eq (hlength ▸ hi) "", ok_bind, mapM_eq_map fun g hg => firstCell_eq (hgs g hg).1 ?_]
    · rfl
    · rw [length_of_mem_keyColumns ht hkeys (List.mem_of_getElem? hc)]
      exact (hgs g hg).2

/-- The aggregates of some columns within each group of equal keys, one row per group with the key cells
first. -/
def aggregateGroups (sorter : Sorter) (t : Table) (keys names : List String) (func : AggFunc) :
    Checked Table := do
  let gs ← groups sorter t keys
  let keyColumns ← plain ((t.keyColumns keys).mapError .plan)
  let keyOut ← keyCells keys keyColumns gs
  let out ← names.mapM fun name => do
    let c ← plain (t.need name)
    let values ← gs.mapM fun g => do
      let cells ← g.mapM (place c.values)
      plain (aggregate func cells)
    pure (Column.mk name values)
  plain ((Table.ofColumns (keyOut ++ out)).mapError fun e => .plan (.construction e))

theorem aggregateGroups_inRange (ht : t.Level) (sorter : Sorter) (keys names : List String)
    (func : AggFunc) : InRange Table.Valid (aggregateGroups sorter t keys names func) := by
  refine (groups_inRange ht sorter keys).bind fun gs hgs => ?_
  cases hkeys : t.keyColumns keys with
  | error e => trivial
  | ok keyColumns =>
    change InRange _ (keyCells keys keyColumns gs >>= _)
    rw [keyCells_eq ht hgs hkeys, ok_bind]
    refine InRange.bind (InRange.mapM fun name _ => ?_) fun out _ => inRange_plain fun u hu => ?_
    · refine InRange.bind (P := fun c => c ∈ t.columns) (inRange_plain fun c hc => ?_) fun c hc => ?_
      · exact List.mem_of_find?_eq_some (Table.need_eq_ok.1 hc)
      · refine InRange.bind (InRange.mapM fun g hg => ?_) fun values _ => trivial
        rw [mapM_place (fun i hi => ht c hc ▸ (hgs g hg).2 i hi) .null]
        exact inRange_plain fun _ _ => trivial
    · exact Table.valid_of_ofColumns hu

theorem aggregateGroups_mirrors (ht : t.Level) (sorter : Sorter) (names : List String) (func : AggFunc)
    (h : ∀ k ∈ keys, ∀ c, t.column? k = some c → ¬ Straddled c.values) :
    Mirrors Eq (aggregateGroups sorter t keys names func) (t.aggregateGroups keys names func) := by
  refine (groups_mirrors ht sorter h).bind_eq fun gs hgs => ?_
  refine (mirrors_plain _).bind_eq fun keyColumns hkeys => ?_
  have hgs := areGroups_groups (mapError_eq_ok.1 hgs)
  rw [keyCells_eq ht hgs (mapError_eq_ok.1 hkeys), ok_bind]
  refine Mirrors.bind_eq (Mirrors.mapM_eq fun name _ => ?_) fun out _ => mirrors_plain _
  refine (mirrors_plain _).bind_eq fun c hc => ?_
  refine Mirrors.bind_eq (Mirrors.mapM_eq fun g hg => ?_) fun values _ => mirrors_ok rfl
  have hlength := ht c (List.mem_of_find?_eq_some (Table.need_eq_ok.1 hc))
  rw [mapM_place (fun i hi => hlength ▸ (hgs g hg).2 i hi) .null]
  exact mirrors_plain _

/-! ## Statistics -/

/-- The value at a fraction of the way through sorted floats. -/
def quantile (sorted : List Double) (fraction : Float) : Checked Double := do
  let between := Describe.places fraction sorted.length
  let a ← place sorted between.1
  let b ← place sorted between.2
  pure (a + (b - a) * .ofFloat (fraction * Float.ofNat (sorted.length - 1) - Float.ofNat between.1))

theorem quantile_eq {sorted : List Double} {fraction : Float} (hfraction : Binary.IsQuartile fraction)
    (hne : 0 < sorted.length) (hword : sorted.length < 2 ^ 64) :
    quantile sorted fraction = .ok (Describe.quantile sorted fraction) := by
  obtain ⟨hlo, hhi⟩ := Describe.places_lt hfraction hne hword
  rw [quantile, place_eq hlo (.ofFloat 0.0), place_eq hhi (.ofFloat 0.0)]
  rfl

/-- The statistics of a column. -/
def columnStats (values : List Scalar) : Checked (List Scalar) :=
  let count := (values.filter fun v => !v.isNull).length
  let xs := (values.filterMap Scalar.float?).mergeSort fun x y => x.totalRank ≤ y.totalRank
  let head := Scalar.float (.ofNat count)
  if xs.length = count ∧ 0 < count then do
    let mean := Describe.sum xs / .ofNat xs.length
    let least ← place xs 0
    let lower ← quantile xs 0.25
    let median ← quantile xs 0.5
    let upper ← quantile xs 0.75
    let greatest ← place xs (xs.length - 1)
    pure [head, .float mean, Describe.deviation xs mean, .float least, .float lower, .float median,
      .float upper, .float greatest]
  else pure (head :: List.replicate (Describe.statistics.length - 1) .null)

theorem columnStats_eq {values : List Scalar} (h : values.length < 2 ^ 64) :
    columnStats values = .ok (Describe.columnStats values) := by
  rw [columnStats, Describe.columnStats]
  dsimp only
  have hlength : ((values.filterMap Scalar.float?).mergeSort fun x y =>
      decide (x.totalRank ≤ y.totalRank)).length < 2 ^ 64 := by
    rw [List.length_mergeSort]
    exact Nat.lt_of_le_of_lt (List.length_filterMap_le _ _) h
  generalize (values.filterMap Scalar.float?).mergeSort _ = xs at hlength ⊢
  split
  · rename_i hcount
    have hpos : 0 < xs.length := by omega
    have hleast : xs.getD 0 default = xs.headD default := by cases xs <;> rfl
    have hgreatest : xs.getD (xs.length - 1) default = xs.getLastD default := by
      rw [List.getLastD_eq_getLast?, List.getLast?_eq_getElem?, List.getD_eq_getElem?_getD]
    rw [place_eq hpos default, quantile_eq Binary.isQuartile_quarter hpos hlength,
      quantile_eq Binary.isQuartile_half hpos hlength, quantile_eq Binary.isQuartile_threeQuarters hpos hlength,
      place_eq (Nat.sub_lt hpos Nat.one_pos) default, hleast, hgreatest]
    rfl
  · rfl

/-- The statistics of a table. -/
def describe (t : Table) : Checked Table := do
  let columns ← t.columns.mapM fun c => do
    let stats ← columnStats c.values
    pure (Column.mk c.name stats)
  plain ((Table.ofColumns (⟨Describe.labelColumn, Describe.statistics.map .text⟩ :: columns)).mapError
    fun e => .plan (.construction e))

/-- Statistics are computed without reading outside of the table, as rows are counted in words. -/
theorem describe_mirrors (ht : t.Level) (hword : t.rowCount < 2 ^ 64) :
    Mirrors Eq (describe t) (Describe.describe t) := by
  have hcolumns : (t.columns.mapM fun c => do
      let stats ← columnStats c.values
      pure (Column.mk c.name stats) : Checked (List Column)) =
        .ok (t.columns.map fun c => ⟨c.name, Describe.columnStats c.values⟩) := by
    refine mapM_eq_map fun c hc => ?_
    rw [columnStats_eq (ht c hc ▸ hword)]
    rfl
  rw [describe, hcolumns]
  exact mirrors_plain _

/-! ## Collapsed rows -/

/-- The row of a one-row table as a value or a series. -/
def collapse (t : Table) : Checked Result :=
  if t.rowCount ≠ 1 then pure (.table t)
  else
    let entries := t.columns.map fun c => (c.name, c.values.getLastD .null)
    if entries.length = 1 then do
      let entry ← place entries 0
      pure (.scalar entry.2)
    else pure (.series entries)

theorem collapse_eq (t : Table) : collapse t = .ok (Result.collapse t) := by
  rw [collapse, Result.collapse]
  split
  · rfl
  · obtain ⟨columns⟩ := t
    rcases columns with - | ⟨c, - | ⟨d, rest⟩⟩
    · rfl
    · rfl
    · exact if_neg (by simp)

end LazyQuery.Checked
