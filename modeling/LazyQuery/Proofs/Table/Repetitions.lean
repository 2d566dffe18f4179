import LazyQuery.Proofs.Table.Partition

/-!
# Tables without repetitions

Removing repetitions keeps the first row of each digest (`dropDuplicates_firstRows`). A row is kept if its
digest is that of no row before it, and so the rows that are left have digests of their own, each digest of
the table among them.

* `dropDuplicates_eq` says by their numbers which rows are kept, in any table.
* `rowKey_take` is why the digests of what is left are those of the rows that were kept.
* `concat_self` and `firstRows_stacked`: in a table stacked on itself the lower half repeats the upper one.
-/

set_option autoImplicit false

namespace LazyQuery.Table

variable {t u : Table} {i j : Nat}

/-- Two rows, of one table or of two, have one digest over all columns. -/
def SameDigest (t : Table) (i : Nat) (u : Table) (j : Nat) : Prop :=
  ∃ d, t.HasDigest t.names i d ∧ u.HasDigest u.names j d

theorem HasDigest.lt_rowCount {names : List String} {d : Key} (h : t.HasDigest names i d) :
    i < t.rowCount := by
  obtain ⟨digests, hdigests, hi⟩ := h
  obtain ⟨columns, -, hdigests⟩ := bind_eq_ok.1 hdigests
  obtain rfl := Except.ok.inj hdigests
  simpa using (List.getElem?_eq_some_iff.1 hi).1

theorem sameDigest_iff_rowKey : t.SameDigest i u j ↔
    i < t.rowCount ∧ j < u.rowCount ∧ t.rowKey t.names i = u.rowKey u.names j := by
  constructor
  · rintro ⟨d, hi, hj⟩
    have hit := hi.lt_rowCount
    have hju := hj.lt_rowCount
    rw [hasDigest_iff (fun n hn => hn) hit] at hi
    rw [hasDigest_iff (fun n hn => hn) hju] at hj
    exact ⟨hit, hju, hi.symm.trans hj⟩
  · rintro ⟨hi, hj, h⟩
    exact ⟨_, hasDigest (fun n hn => hn) hi, (hasDigest_iff (fun n hn => hn) hj).2 h⟩

/-! ## The rows that are kept -/

/-- The numbers of the rows whose digest is that of no row before them. -/
def firstRows (t : Table) : List Nat :=
  (List.range t.rowCount).filter fun i => ∀ j, j < i → t.rowKey t.names j ≠ t.rowKey t.names i

theorem mem_firstRows :
    i ∈ t.firstRows ↔ i < t.rowCount ∧ ∀ j, j < i → t.rowKey t.names j ≠ t.rowKey t.names i := by
  rw [firstRows, List.mem_filter, List.mem_range, decide_eq_true_iff]

theorem mem_firstRows_iff_digest :
    i ∈ t.firstRows ↔ i < t.rowCount ∧ ∀ j, j < i → ¬ t.SameDigest j t i := by
  rw [mem_firstRows]
  refine and_congr_right fun hi => forall₂_congr fun j hj => not_congr ?_
  rw [sameDigest_iff_rowKey]
  exact ⟨fun h => ⟨hj.trans hi, hi, h⟩, fun h => h.2.2⟩

/-- **Removing repetitions keeps the first rows**, in any table. -/
theorem dropDuplicates_eq (t : Table) : t.dropDuplicates = .ok (t.take t.firstRows) := by
  rw [dropDuplicates, rowDigests_ok fun n hn => hn, firstRows, ← firstPositions_eq_filter]
  rfl

theorem mem_firstRows_iff_groupRow : i ∈ t.firstRows ↔ i ∈ t.groupRows t.names :=
  mem_firstRows.trans mem_groupRows.symm

/-! ## What is left -/

theorem rowKey_take {order : List Nat} (hi : i < order.length) :
    (t.take order).rowKey (t.take order).names i = t.rowKey t.names order[i] := by
  rw [rowKey, rowKey, names_take]
  exact congrArg Scalar.keyOf (List.map_congr_left fun n _ => cell_take hi n)

theorem rowCount_firsts (t : Table) : (t.take t.firstRows).rowCount = t.firstRows.length := by
  by_cases hc : t.columns = []
  · simp [take, firstRows, rowCount, hc]
  · exact rowCount_take hc _

theorem rows_firsts (t : Table) : (t.take t.firstRows).rows = t.firstRows.map t.row := by
  by_cases hc : t.columns = []
  · simp [rows, take, firstRows, rowCount, hc]
  · exact rows_take hc _

/-- No two of the rows that are left have one digest. -/
theorem sameDigest_firsts (h : (t.take t.firstRows).SameDigest i (t.take t.firstRows) j) : i = j := by
  obtain ⟨hi, hj, h⟩ := sameDigest_iff_rowKey.1 h
  rw [rowCount_firsts] at hi hj
  rw [rowKey_take hi, rowKey_take hj] at h
  have hsame := groupRows_inj (mem_firstRows_iff_groupRow.1 (List.getElem_mem hi))
    (mem_firstRows_iff_groupRow.1 (List.getElem_mem hj)) h
  exact (List.nodup_range.filter _).getElem_inj_iff.1 hsame

/-- Each digest of the table is left. -/
theorem exists_sameDigest_firsts (hi : i < t.rowCount) :
    ∃ j, t.SameDigest i (t.take t.firstRows) j := by
  obtain ⟨k, hk, h⟩ : ∃ k ∈ t.groupRows t.names, t.rowKey t.names k = t.rowKey t.names i :=
    exists_groupRow hi
  obtain ⟨j, hj, rfl⟩ := List.getElem_of_mem (mem_firstRows_iff_groupRow.2 hk)
  refine ⟨j, sameDigest_iff_rowKey.2 ⟨hi, ?_, ?_⟩⟩
  · rwa [rowCount_firsts]
  · rw [rowKey_take hj, h]

/-- Where no two rows have one digest, each row is a first one. -/
theorem firstRows_eq_range (h : ∀ i j, t.SameDigest i t j → i = j) :
    t.firstRows = List.range t.rowCount := by
  refine List.filter_eq_self.2 fun i hi => decide_eq_true fun j hj hkey => ?_
  rw [List.mem_range] at hi
  exact absurd (h j i (sameDigest_iff_rowKey.2 ⟨hj.trans hi, hi, hkey⟩)) (Nat.ne_of_lt hj)

/-! ## A table stacked on itself -/

/-- The table with its rows below themselves. -/
def stacked (t : Table) : Table := ⟨t.columns.map fun c => ⟨c.name, c.values ++ c.values⟩⟩

theorem names_stacked (t : Table) : t.stacked.names = t.names := by
  simp [stacked, names]

theorem rowCount_stacked (t : Table) : t.stacked.rowCount = t.rowCount + t.rowCount := by
  rw [stacked, rowCount, rowCount]
  cases t.columns with
  | nil => rfl
  | cons c rest => exact List.length_append

theorem valid_stacked (ht : t.Valid) : t.stacked.Valid := by
  refine ⟨?_, names_stacked t ▸ ht.2⟩
  rw [rowCount_stacked]
  refine List.forall_mem_map.2 fun c hc => ?_
  rw [List.length_append, ht.1 c hc]

/-- A table under columns that are named after its own. -/
theorem appendTo_eq (ht : t.Valid) (above : Column → List Scalar) :
    appendTo (t.columns.map fun c => ⟨c.name, above c⟩) t =
      .ok (t.columns.map fun c => ⟨c.name, above c ++ c.values⟩) := by
  rw [appendTo, if_neg (by simp)]
  change List.mapM _ _ = _
  rw [List.mapM_map]
  refine mapM_eq_map fun c hc => ?_
  rw [Function.comp, need_eq_ok.2 (column?_of_mem ht.2 hc)]
  rfl

theorem concat_self (ht : t.Valid) : concat [t, t] t.names = .ok t.stacked := by
  have hempty : t.names.map (fun n => Column.mk n []) = t.columns.map fun c => ⟨c.name, []⟩ := by
    rw [names, List.map_map]
    rfl
  rw [concat, hempty, List.foldlM_cons, appendTo_eq ht, ok_bind, List.foldlM_cons]
  simp only [List.nil_append, appendTo_eq ht, ok_bind, List.foldlM_nil, pure_eq_ok]
  exact build_eq_ok.2 ⟨rfl, valid_stacked ht⟩

theorem column?_stacked (t : Table) (name : String) :
    t.stacked.column? name = (t.column? name).map fun c => ⟨c.name, c.values ++ c.values⟩ := by
  simp [stacked, column?, List.find?_map]

/-- Each row of a table stacked on itself is that of the same number, counted from the top of its half. -/
theorem cell_stacked (ht : t.Valid) (hi : i < t.rowCount) (name : String) :
    t.stacked.cell name i = t.cell name i ∧ t.stacked.cell name (t.rowCount + i) = t.cell name i := by
  rw [cell, cell, cell, column?_stacked]
  cases hc : t.column? name with
  | none => exact ⟨rfl, rfl⟩
  | some c =>
    have hlen : c.values.length = t.rowCount := ht.1 c (List.mem_of_find?_eq_some hc)
    simp [List.getElem?_append_left (hlen ▸ hi), ← hlen, List.getElem?_append_right]

theorem rowKey_stacked (ht : t.Valid) (hi : i < t.rowCount) :
    t.stacked.rowKey t.stacked.names i = t.rowKey t.names i ∧
      t.stacked.rowKey t.stacked.names (t.rowCount + i) = t.rowKey t.names i := by
  rw [rowKey, rowKey, rowKey, names_stacked]
  exact ⟨congrArg Scalar.keyOf (List.map_congr_left fun n _ => (cell_stacked ht hi n).1),
    congrArg Scalar.keyOf (List.map_congr_left fun n _ => (cell_stacked ht hi n).2)⟩

/-- The lower half of a table stacked on itself has no first rows. -/
theorem firstRows_stacked (ht : t.Valid) : t.stacked.firstRows = t.firstRows := by
  rw [firstRows, rowCount_stacked, List.range_add, List.filter_append, firstRows]
  have hlower : ((List.range t.rowCount).map (t.rowCount + ·)).filter (fun i =>
      ∀ j, j < i → t.stacked.rowKey t.stacked.names j ≠ t.stacked.rowKey t.stacked.names i) = [] := by
    refine List.filter_eq_nil_iff.2 (List.forall_mem_map.2 fun i hi h => ?_)
    rw [List.mem_range] at hi
    obtain ⟨hupper, hlower⟩ := rowKey_stacked ht hi
    exact of_decide_eq_true h i (by omega) (hupper.trans hlower.symm)
  rw [hlower, List.append_nil]
  refine List.filter_congr fun i hi => decide_eq_decide.2 (forall₂_congr fun j hj => not_congr ?_)
  rw [List.mem_range] at hi
  rw [(rowKey_stacked ht hi).1, (rowKey_stacked ht (hj.trans hi)).1]

/-- The upper half of a table stacked on itself is the table. -/
theorem take_stacked (ht : t.Valid) {order : List Nat} (h : ∀ i ∈ order, i < t.rowCount) :
    t.stacked.take order = t.take order := by
  rw [take, stacked, List.map_map]
  refine congrArg Table.mk (List.map_congr_left fun c hc => congrArg (Column.mk c.name) ?_)
  refine List.map_congr_left fun i hi => ?_
  have hlt : i < c.values.length := (ht.1 c hc).symm ▸ h i hi
  simp [List.getElem?_append_left hlt]

/-! ## The rows of the result -/

/-- **Removing repetitions keeps exactly the first row of each digest.** The rows of the result are those
of the table whose digest is that of no earlier row, in order. No two of them have one digest, and each
digest of the table is that of one of them. Removing repetitions once more changes nothing, and doing so
from the table stacked on itself gives the same result. -/
theorem dropDuplicates_firstRows (ht : t.Valid) :
    ∃ (u : Table) (kept : List Nat), t.dropDuplicates = .ok u ∧ u.Valid ∧ u.names = t.names ∧
      kept.Pairwise (· < ·) ∧
      (∀ i, i ∈ kept ↔ i < t.rowCount ∧ ∀ j, j < i → ¬ t.SameDigest j t i) ∧
      u.rowCount = kept.length ∧ u.rows = kept.map t.row ∧
      (∀ i j, u.SameDigest i u j → i = j) ∧
      (∀ i, i < t.rowCount → ∃ j, t.SameDigest i u j) ∧
      u.dropDuplicates = .ok u ∧
      ∃ v, concat [t, t] t.names = .ok v ∧ v.dropDuplicates = .ok u := by
  have hlevel := level_take t t.firstRows
  refine ⟨_, t.firstRows, dropDuplicates_eq t, ⟨hlevel, (names_take t _).symm ▸ ht.2⟩, names_take t _,
    List.pairwise_lt_range.filter _, fun _ => mem_firstRows_iff_digest, rowCount_firsts t, rows_firsts t,
    fun _ _ => sameDigest_firsts, fun _ => exists_sameDigest_firsts, ?_, _, concat_self ht, ?_⟩
  · rw [dropDuplicates_eq, firstRows_eq_range fun _ _ => sameDigest_firsts, take_range hlevel]
  · rw [dropDuplicates_eq, firstRows_stacked ht, take_stacked ht fun i hi => (mem_firstRows.1 hi).1]

/-- A truth value repeats the integer before it, and a null repeats a null. -/
theorem dropDuplicates_firstRows_truth :
    let t : Table := ⟨[⟨"a", [.int 1, .null, .bool true, .null, .null]⟩,
      ⟨"b", [.int 7, .int 7, .int 7, .int 8, .int 7]⟩]⟩
    t.Valid ∧ ∃ u, t.dropDuplicates = .ok u ∧
      u.rows = [[.int 1, .int 7], [.null, .int 7], [.null, .int 8]] ∧ u.dropDuplicates = .ok u := by
  intro t
  have ht : t.Valid := by
    unfold Valid
    decide
  have hkept : t.dropDuplicates =
      .ok ⟨[⟨"a", [.int 1, .null, .null]⟩, ⟨"b", [.int 7, .int 7, .int 8]⟩]⟩ := rfl
  obtain ⟨u, -, hu, -, -, -, -, -, -, -, -, hagain, -⟩ := dropDuplicates_firstRows ht
  obtain rfl := Except.ok.inj (hu.symm.trans hkept)
  exact ⟨ht, _, hu, rfl, hagain⟩

end LazyQuery.Table
