import LazyQuery.Proofs.Table.Digests
import LazyQuery.Proofs.Table.Groups
import LazyQuery.Proofs.Table.Sorting

/-!
# Groups of rows

An aggregation of groups puts each row of a table into one group, and two rows into the same one if they
have the same digest (`IsGrouping`). It has one row to each group, with the key cells of the group's
first row and the aggregates of its cells (`aggregateGroups_partition`).

* `isGrouping_groups` is about the groups themselves: each is represented by its first row
  (`mem_groupRows`), and no two by rows of one digest.
* `sum_counts` says that what is counted in the groups is what is counted in the table.
* `pairwise_groups` is the order of the groups. Equal tuples have one key, so that without floats in the
  key columns no two groups tie.
-/

set_option autoImplicit false

namespace LazyQuery.Table

variable {t u : Table} {keys columns : List String} {func : AggFunc} {i j : Nat}

/-- The key cells of the first row of a group. -/
def groupKey (t : Table) (keys : List String) (g : List Nat) : List Scalar :=
  keys.map fun n => t.cell n (g.headD 0)

/-- The numbers of a table's rows in groups: each row is in one of them, the rows of a group are in order,
and rows are in the same group if they have the same digest. Null is equal to null only. -/
structure IsGrouping (t : Table) (keys : List String) (groups : List (List Nat)) : Prop where
  nonempty : ∀ g ∈ groups, g ≠ []
  ascending : ∀ g ∈ groups, g.Pairwise (· < ·)
  perm : groups.flatten.Perm (List.range t.rowCount)
  digest : ∀ g ∈ groups, ∀ h ∈ groups, ∀ i ∈ g, ∀ j ∈ h,
    g = h ↔ ∃ d, t.HasDigest keys i d ∧ t.HasDigest keys j d
  nulls : t.Sized → ∀ g ∈ groups, ∀ i ∈ g, ∀ j ∈ g, ∀ n ∈ keys,
    t.cell n i = .null ↔ t.cell n j = .null

/-! ## Groups and their first rows -/

/-- The key of a row. -/
def rowKey (t : Table) (keys : List String) (i : Nat) : Key :=
  Scalar.keyOf (keys.map fun n => t.cell n i)

theorem mem_groupRows :
    i ∈ t.groupRows keys ↔ i < t.rowCount ∧ ∀ j, j < i → t.rowKey keys j ≠ t.rowKey keys i := by
  rw [groupRows, List.mem_mergeSort, mem_firstPositions]
  rfl

theorem mem_groupOf : j ∈ t.groupOf keys i ↔ j < t.rowCount ∧ t.rowKey keys j = t.rowKey keys i := by
  simp [groupOf, rowKey]

theorem groupOf_congr (h : t.rowKey keys i = t.rowKey keys j) :
    t.groupOf keys i = t.groupOf keys j := by
  unfold groupOf
  rw [show Scalar.keyOf (keys.map fun n => t.cell n i) = _ from h]
  rfl

theorem nodup_groupRows : (t.groupRows keys).Nodup := by
  rw [groupRows, (List.mergeSort_perm _ _).nodup_iff, firstPositions_eq_filter]
  exact List.nodup_range.filter _

/-- A group has one first row. -/
theorem groupRows_inj (hi : i ∈ t.groupRows keys) (hj : j ∈ t.groupRows keys)
    (h : t.rowKey keys i = t.rowKey keys j) : i = j := by
  rw [mem_groupRows] at hi hj
  rcases Nat.lt_trichotomy i j with hlt | rfl | hlt
  · exact absurd h (hj.2 i hlt)
  · rfl
  · exact absurd h.symm (hi.2 j hlt)

/-- Each row is in a group. -/
theorem exists_groupRow (hj : j < t.rowCount) :
    ∃ i ∈ t.groupRows keys, t.rowKey keys i = t.rowKey keys j := by
  induction j using Nat.strongRecOn with
  | ind j ih =>
    by_cases h : ∃ i, i < j ∧ t.rowKey keys i = t.rowKey keys j
    · obtain ⟨i, hlt, hi⟩ := h
      obtain ⟨k, hk, hki⟩ := ih i hlt (hlt.trans hj)
      exact ⟨k, hk, hki.trans hi⟩
    · exact ⟨j, mem_groupRows.2 ⟨hj, fun i hlt hi => h ⟨i, hlt, hi⟩⟩, rfl⟩

theorem perm_flatten_groups (t : Table) (keys : List String) :
    ((t.groupRows keys).map (t.groupOf keys)).flatten.Perm (List.range t.rowCount) := by
  refine (List.perm_ext_iff_of_nodup (List.nodup_flatten.2 ⟨?_, ?_⟩) List.nodup_range).2 fun j => ?_
  · exact List.forall_mem_map.2 fun i _ => List.nodup_range.filter _
  · rw [List.pairwise_map]
    refine nodup_groupRows.imp_of_mem fun hi hj hne => List.disjoint_left.2 fun k hki hkj => ?_
    rw [mem_groupOf] at hki hkj
    exact hne (groupRows_inj hi hj (hki.2.symm.trans hkj.2))
  · rw [← List.flatMap_def, List.mem_flatMap, List.mem_range]
    constructor
    · rintro ⟨i, -, hj⟩
      exact (mem_groupOf.1 hj).1
    · intro hj
      obtain ⟨i, hi, h⟩ := exists_groupRow hj
      exact ⟨i, hi, mem_groupOf.2 ⟨hj, h.symm⟩⟩

theorem hasDigest_iff (hk : ∀ n ∈ keys, n ∈ t.names) (hi : i < t.rowCount) {d : Key} :
    t.HasDigest keys i d ↔ d = t.rowKey keys i := by
  have h := hasDigest hk hi
  exact ⟨fun hd => hd.unique h, fun hd => hd ▸ h⟩

theorem null_iff_of_rowKey (ht : t.Sized) (h : t.rowKey keys i = t.rowKey keys j) {n : String}
    (hn : n ∈ keys) : t.cell n i = .null ↔ t.cell n j = .null := by
  rw [rowKey, rowKey, Scalar.keyOf_eq_iff_frames (List.forall_mem_map.2 fun n _ => ht.cell n i)
    (List.forall_mem_map.2 fun n _ => ht.cell n j) (by simp), List.forall₂_map_left_iff,
    List.forall₂_map_right_iff, List.forall₂_same] at h
  have hkind : (t.cell n i).kindRank = (t.cell n j).kindRank :=
    not_imp_comm.1 (Scalar.frame_ne (ht.cell n i) (ht.cell n j)) (not_not_intro (h n hn))
  cases hi : t.cell n i <;> cases hj : t.cell n j <;> simp [hi, hj, Scalar.kindRank] at hkind ⊢

/-- **The groups are the classes of rows of one digest.** -/
theorem isGrouping_groups (hk : ∀ n ∈ keys, n ∈ t.names) :
    t.IsGrouping keys ((t.groupRows keys).map (t.groupOf keys)) where
  nonempty := List.forall_mem_map.2 fun i hi =>
    List.ne_nil_of_mem (mem_groupOf.2 ⟨(mem_groupRows.1 hi).1, rfl⟩)
  ascending := List.forall_mem_map.2 fun i _ => List.pairwise_lt_range.filter _
  perm := t.perm_flatten_groups keys
  digest := by
    refine List.forall_mem_map.2 fun a ha => List.forall_mem_map.2 fun b hb i hi j hj => ?_
    rw [mem_groupOf] at hi hj
    simp only [hasDigest_iff hk hi.1, hasDigest_iff hk hj.1, exists_eq_left]
    constructor
    · intro h
      have hja : j ∈ t.groupOf keys a := h ▸ mem_groupOf.2 hj
      exact hi.2.trans (mem_groupOf.1 hja).2.symm
    · intro h
      exact groupOf_congr (hi.2.symm.trans (h.trans hj.2))
  nulls := by
    intro ht
    refine List.forall_mem_map.2 fun a _ i hi j hj n hn => ?_
    exact null_iff_of_rowKey ht ((mem_groupOf.1 hi).2.trans (mem_groupOf.1 hj).2.symm) hn

/-! ## The order of groups -/

/-- Nothing comes before nulls. -/
theorem compareTuple_nulls {as bs : List Scalar} (hlen : as.length = bs.length)
    (hb : ∀ v ∈ bs, v = .null) : Scalar.compareTuple as bs ≠ .lt := by
  rw [Scalar.compareTuple_eq]
  induction as generalizing bs with
  | nil =>
    obtain rfl := List.eq_nil_of_length_eq_zero hlen.symm
    nofun
  | cons a as ih =>
    cases bs with
    | nil => cases hlen
    | cons b bs =>
      rw [List.forall_mem_cons] at hb
      have hrest := ih (Nat.succ.inj hlen) hb.2
      rw [List.compareLex_cons_cons, hb.1]
      cases a <;> simp [Scalar.compare, hrest]

theorem pairwise_groupRows (hf : ∀ n ∈ keys, t.FloatFree n) : (t.groupRows keys).Pairwise fun i j =>
    Scalar.compareTuple (keys.map fun n => t.cell n i) (keys.map fun n => t.cell n j) = .lt := by
  have hfree (i : Nat) (x : Double) : Scalar.float x ∉ keys.map fun n => t.cell n i := by
    intro hx
    obtain ⟨n, hn, hx⟩ := List.mem_map.1 hx
    exact (hf n hn).cell i x hx
  have hcmp := fun i j => Scalar.compareTuple_eq_whole (hfree i) (hfree j)
  have hsorted : (t.groupRows keys).Pairwise fun i j => (Scalar.compareTuple
      (keys.map fun n => t.cell n i) (keys.map fun n => t.cell n j) != .gt) = true := by
    simp only [groupRows, hcmp]
    exact pairwise_sorted (Ordering.byKey (fun i => keys.map fun n => t.cell n i)
      (List.compareLex Scalar.compareWhole)) _
  refine (hsorted.and nodup_groupRows).imp_of_mem ?_
  rintro i j hi hj ⟨hle, hne⟩
  have htie := mt (Scalar.keyOf_eq_of_compareTuple (hfree i) (hfree j)) fun h =>
    hne (groupRows_inj hi hj h)
  cases hc : Scalar.compareTuple (keys.map fun n => t.cell n i) (keys.map fun n => t.cell n j) <;>
    simp [hc] at hle htie ⊢

/-- **Without floats in the key columns the groups are strictly in order**, and one of nulls is the
first. -/
theorem pairwise_groups (hf : ∀ n ∈ keys, t.FloatFree n) {groups : List (List Nat)}
    (hgs : (t.groupRows keys).map (t.groupOf keys) = groups) :
    groups.Pairwise (fun g h => Scalar.compareTuple (t.groupKey keys g) (t.groupKey keys h) = .lt) ∧
      ∀ g ∈ groups, (∀ v ∈ t.groupKey keys g, v = .null) → groups.head? = some g := by
  have hpairs : groups.Pairwise fun g h =>
      Scalar.compareTuple (t.groupKey keys g) (t.groupKey keys h) = .lt := by
    rw [← hgs, List.pairwise_map]
    refine (pairwise_groupRows hf).imp_of_mem fun hi hj h => ?_
    rwa [groupKey, groupKey, headD_groupOf hi, headD_groupOf hj]
  refine ⟨hpairs, fun g hg hnull => ?_⟩
  cases groups with
  | nil => cases hg
  | cons first rest =>
    rcases List.mem_cons.1 hg with rfl | hg
    · rfl
    · exact absurd (List.rel_of_pairwise_cons hpairs hg)
        (compareTuple_nulls (by simp [groupKey]) hnull)

/-! ## Counts -/

/-- How many values there are, missing ones apart. -/
def present (values : List Scalar) : Nat := values.countP fun v => !v.isNull

theorem aggregate_count (values : List Scalar) :
    aggregate .count values = .ok (.int (Int64.ofNat (present values))) := by
  rw [present, List.countP_eq_length_filter]
  rfl

/-- What is counted in the groups is what is counted in the table. -/
theorem sum_counts (ht : t.Valid) {groups : List (List Nat)} (hg : t.IsGrouping keys groups) {n : String}
    {c : Column} (hc : t.column? n = some c) :
    (groups.map fun g => present (g.map (t.cell n))).sum = present c.values := by
  have hvalues : c.values = (List.range t.rowCount).map (t.cell n) :=
    values_eq hc (ht.1 c (List.mem_of_find?_eq_some hc))
  rw [hvalues, present, ← (hg.perm.map _).countP_eq, List.countP_map, List.countP_flatten]
  simp [present, List.countP_map]

/-! ## Aggregation of groups -/

/-- A column has for each group the aggregate of its cells in the column of the same name. -/
structure AggregatesGroups (t : Table) (func : AggFunc) (groups : List (List Nat)) (n : String)
    (d : Column) : Prop where
  name : d.name = n
  found : ∃ c, t.column? n = some c
  values : List.Forall₂ (fun g v => aggregate func (g.map (t.cell n)) = .ok v) groups d.values

/-- What an aggregation of groups succeeds with. -/
theorem aggregateGroups_spec_groups (hu : t.aggregateGroups keys columns func = .ok u)
    {groups : List (List Nat)} (hgs : (t.groupRows keys).map (t.groupOf keys) = groups) :
    (∀ n ∈ keys, n ∈ t.names) ∧ u.Valid ∧ ∃ out,
      u = ⟨(keys.map fun n => ⟨n, (t.groupRows keys).map (t.cell n)⟩) ++ out⟩ ∧
      List.Forall₂ (t.AggregatesGroups func groups) columns out := by
  have hk : ∀ n ∈ keys, n ∈ t.names := by
    obtain ⟨_, hgroups, -⟩ := bind_eq_ok.1 hu
    exact (groups_eq_ok.1 (mapError_eq_ok.1 hgroups)).1
  rw [aggregateGroups_eq hk hgs] at hu
  obtain ⟨out, hout, hu⟩ := bind_eq_ok.1 hu
  obtain ⟨rfl, hvalid⟩ := ofColumns_eq_ok.1 (mapError_eq_ok.1 hu)
  refine ⟨hk, hvalid, out, rfl, (mapM_eq_ok.1 hout).imp fun n d hd => ?_⟩
  obtain ⟨c, hc, hd⟩ := bind_eq_ok.1 hd
  obtain ⟨values, hvalues, hd⟩ := bind_eq_ok.1 hd
  obtain rfl := Except.ok.inj hd
  rw [need_eq_ok] at hc
  simp only [← cell_of_column? hc] at hvalues
  exact ⟨rfl, ⟨c, hc⟩, mapM_eq_ok.1 hvalues⟩

section

variable {groups : List (List Nat)} {out : List Column}

theorem names_aggregated (hout : List.Forall₂ (t.AggregatesGroups func groups) columns out) :
    (Table.mk ((keys.map fun n => ⟨n, (t.groupRows keys).map (t.cell n)⟩) ++ out)).names =
      keys ++ columns := by
  have hnames : out.map Column.name = columns := by
    rw [← List.forall₂_eq_eq_eq, List.forall₂_map_left_iff]
    exact hout.flip.imp fun _ _ h => h.name
  simp [names, hnames, Function.comp_def]

/-- A row of an aggregation of groups: the key cells of a group's first row, and the aggregates of the
cells of its rows. -/
def IsGroupRow (t : Table) (keys columns : List String) (func : AggFunc) (g : List Nat)
    (row : List Scalar) : Prop :=
  ∃ values, row = t.groupKey keys g ++ values ∧
    List.Forall₂ (fun n v => aggregate func (g.map (t.cell n)) = .ok v) columns values

/-- There is a row to each group. -/
theorem forall₂_isGroupRow (hgs : (t.groupRows keys).map (t.groupOf keys) = groups)
    (hout : List.Forall₂ (t.AggregatesGroups func groups) columns out)
    (hu : u = ⟨(keys.map fun n => ⟨n, (t.groupRows keys).map (t.cell n)⟩) ++ out⟩) (hvalid : u.Valid)
    (hne : keys ++ columns ≠ []) : List.Forall₂ (t.IsGroupRow keys columns func) groups u.rows := by
  have hlength : (t.groupRows keys).length = groups.length := by rw [← hgs, List.length_map]
  have hlengths : ∀ c ∈ u.columns, c.values.length = groups.length := by
    rw [hu]
    refine List.forall_mem_append.2 ⟨List.forall_mem_map.2 fun n _ => by simp [hlength], fun d hd => ?_⟩
    obtain ⟨n, -, h⟩ := exists_of_mem_right hout hd
    exact h.values.length_eq.symm
  have hrows : u.rowCount = groups.length := by
    rw [← names_aggregated hout, ← hu] at hne
    obtain ⟨c, hc⟩ := List.exists_mem_of_ne_nil _ (mt (congrArg (List.map Column.name)) hne)
    rw [← hvalid.1 c hc, hlengths c hc]
  rw [List.forall₂_iff_get]
  refine ⟨by simp [rows, hrows], fun p hp hp' => ?_⟩
  have hp₀ : p < (t.groupRows keys).length := hlength ▸ hp
  have hkey : t.groupKey keys groups[p] = keys.map fun n => t.cell n (t.groupRows keys)[p] := by
    simp only [groupKey, ← hgs, List.getElem_map, headD_groupOf (List.getElem_mem hp₀)]
  refine ⟨out.map fun d => d.values.getD p .null, ?_, ?_⟩
  · simp [rows, row, hu, hkey, Function.comp_def, List.getElem?_eq_getElem hp₀]
  · rw [List.forall₂_map_right_iff]
    refine hout.imp fun n d h => ?_
    have hp₁ : p < d.values.length := h.values.length_eq ▸ hp
    simpa [List.getElem?_eq_getElem hp₁] using h.values.get hp hp₁

end

/-- **An aggregation of groups partitions the rows.** There is a row to each class of rows with one
digest, with the key cells of its first row and the aggregates of just its cells. What is counted in the
groups adds up to what is counted in the table. If no key is a float, the rows are strictly in the order
of their keys, and one of nulls is the first. -/
theorem aggregateGroups_partition (ht : t.Valid) (hu : t.aggregateGroups keys columns func = .ok u) :
    u.Valid ∧ u.names = keys ++ columns ∧ ∃ groups, t.IsGrouping keys groups ∧
      (keys ++ columns ≠ [] → List.Forall₂ (t.IsGroupRow keys columns func) groups u.rows) ∧
      (func = .count → ∀ n ∈ columns, ∃ (c d : Column) (counts : List Nat),
        t.column? n = some c ∧ u.column? n = some d ∧
        d.values = counts.map (fun k => .int (Int64.ofNat k)) ∧
        aggregate .count c.values = .ok (.int (Int64.ofNat counts.sum))) ∧
      ((∀ n ∈ keys, t.FloatFree n) → groups.Pairwise (fun g h =>
          Scalar.compareTuple (t.groupKey keys g) (t.groupKey keys h) = .lt) ∧
        ∀ g ∈ groups, (∀ v ∈ t.groupKey keys g, v = .null) → groups.head? = some g) := by
  generalize hgs : (t.groupRows keys).map (t.groupOf keys) = groups
  obtain ⟨hk, hvalid, out, hcolumns, hout⟩ := aggregateGroups_spec_groups hu hgs
  have hgrouping := hgs ▸ isGrouping_groups hk
  refine ⟨hvalid, hcolumns ▸ names_aggregated hout, groups, hgrouping,
    forall₂_isGroupRow hgs hout hcolumns hvalid, ?_, fun hf => pairwise_groups hf hgs⟩
  rintro rfl n hn
  obtain ⟨d, hd, h⟩ := exists_of_mem_left hout hn
  obtain ⟨c, hc⟩ := h.found
  refine ⟨c, d, groups.map fun g => present (g.map (t.cell n)), hc, ?_, ?_, ?_⟩
  · rw [← h.name]
    exact column?_of_mem hvalid.2 (hcolumns ▸ List.mem_append_right _ hd)
  · rw [List.map_map, ← List.forall₂_eq_eq_eq, List.forall₂_map_right_iff]
    exact h.values.flip.imp fun v g hv => Except.ok.inj (hv.symm.trans (aggregate_count _))
  · rw [aggregate_count, sum_counts ht hgrouping hc]

/-- A truth value and an integer in one group, and null in one of its own. -/
theorem aggregateGroups_partition_counts :
    let t : Table := ⟨[⟨"k", [.null, .bool true, .int 2, .int 1, .int 2]⟩,
      ⟨"v", [.int 1, .null, .int 3, .int 4, .int 5]⟩]⟩
    ∃ u groups, t.aggregateGroups ["k"] ["v"] .count = .ok u ∧ t.IsGrouping ["k"] groups ∧
      List.Forall₂ (t.IsGroupRow ["k"] ["v"] .count) groups u.rows ∧
      u.rows = [[.null, .int 1], [.bool true, .int 1], [.int 2, .int 2]] := by
  intro t
  have hgroups : t.groups ["k"] = .ok [[0], [1, 3], [2, 4]] := by
    refine congrArg Except.ok (List.mergeSort_of_pairwise ?_)
    decide
  have hu : t.aggregateGroups ["k"] ["v"] .count = .ok ⟨[⟨"k", [.null, .bool true, .int 2]⟩,
      ⟨"v", [.int 1, .int 1, .int 2]⟩]⟩ := by
    rw [aggregateGroups, hgroups]
    rfl
  obtain ⟨-, -, groups, hgrouping, hrows, -⟩ :=
    aggregateGroups_partition (t := t) (by unfold Valid; decide) hu
  exact ⟨_, groups, hu, hgrouping, hrows (by decide), rfl⟩

end LazyQuery.Table
