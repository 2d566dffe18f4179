import LazyQuery.Proofs.Outcome
import LazyQuery.Result
import LazyQuery.Summary.Describe
import LazyQuery.Table.Join

/-!
# Columns of one length

A table is *level* if all its columns have as many values as it has rows. Columns that are put together
are checked, and rows that are chosen are chosen in every column, so that the operations on tables yield
level tables; only sorting and replacing a column rely on the table that they are given.

* `Table.ofColumns_eq_ok` and `Table.build_eq_ok` say when columns make a table. The operations that put
  columns together yield valid tables therefore, whatever they are given.
* `Table.level_take` is why choosing rows makes any table level; a valid one stays valid (`Valid.take`).
* `Result.toTable_level`: so is the table view of a result.
-/

set_option autoImplicit false

namespace LazyQuery

namespace Table

variable {t u : Table} {c : Column} {columns : List Column}

theorem need_eq_ok {name : String} : t.need name = .ok c ↔ t.column? name = some c := by
  rw [need]
  cases t.column? name <;> simp

theorem name_of_column? {name : String} (h : t.column? name = some c) : c.name = name := by
  simpa using List.find?_some h

/-! ## Tables that are built -/

theorem checkColumns_eq_ok {rows : Nat} {seen : List String} :
    checkColumns rows seen columns = .ok () ↔ (∀ c ∈ columns, c.values.length = rows) ∧
      (columns.map (·.name)).Nodup ∧ ∀ n ∈ columns.map (·.name), n ∉ seen := by
  induction columns generalizing seen with
  | nil => simp [checkColumns]
  | cons c rest ih =>
    rw [checkColumns, throw_eq_error, throw_eq_error, ite_error_eq_ok, ite_error_eq_ok, ih, not_not,
      List.forall_mem_cons, List.map_cons, List.nodup_cons, List.forall_mem_cons]
    have apart : (∀ n ∈ rest.map (·.name), n ∉ c.name :: seen) ↔
        c.name ∉ rest.map (·.name) ∧ ∀ n ∈ rest.map (·.name), n ∉ seen := by
      simp only [List.mem_cons, not_or]
      exact ⟨fun h => ⟨fun hmem => (h _ hmem).1 rfl, fun n hn => (h n hn).2⟩,
        fun h n hn => ⟨fun he => h.1 (he ▸ hn), h.2 n hn⟩⟩
    rw [apart]
    tauto

/-- A table is built of columns of one length under distinct names. -/
theorem ofColumns_eq_ok : ofColumns columns = .ok t ↔ t = ⟨columns⟩ ∧ t.Valid := by
  rw [ofColumns, bind_eq_ok]
  constructor
  · rintro ⟨⟨⟩, hcheck, h⟩
    obtain rfl := Except.ok.inj h
    obtain ⟨hlen, hnodup, -⟩ := checkColumns_eq_ok.1 hcheck
    exact ⟨rfl, hlen, hnodup⟩
  · rintro ⟨rfl, hlen, hnodup⟩
    exact ⟨(), checkColumns_eq_ok.2 ⟨hlen, hnodup, fun _ _ => List.not_mem_nil⟩, rfl⟩

theorem build_eq_ok : build columns = .ok t ↔ t = ⟨columns⟩ ∧ t.Valid :=
  mapError_eq_ok.trans ofColumns_eq_ok

/-! ## Level tables -/

/-- All columns have as many values as the table has rows. -/
def Level (t : Table) : Prop := ∀ c ∈ t.columns, c.values.length = t.rowCount

theorem Valid.level (h : t.Valid) : t.Level := h.1

theorem valid_of_build (h : build columns = .ok t) : t.Valid := (build_eq_ok.1 h).2

theorem valid_of_ofColumns {e : ConstructionError → FrameError}
    (h : (ofColumns columns).mapError e = .ok t) : t.Valid :=
  (ofColumns_eq_ok.1 (mapError_eq_ok.1 h)).2

theorem level_singleton (c : Column) : (Table.mk [c]).Level := by
  simp [Level, rowCount]

theorem level_of_lengths (rows : Nat) (h : ∀ c ∈ columns, c.values.length = rows) :
    (Table.mk columns).Level := by
  intro c hc
  cases columns with
  | nil => cases hc
  | cons d rest => exact (h c hc).trans (h d List.mem_cons_self).symm

theorem level_take (t : Table) (indices : List Nat) : (t.take indices).Level := by
  refine level_of_lengths indices.length fun c hc => ?_
  obtain ⟨d, -, rfl⟩ := List.mem_map.1 hc
  exact List.length_map _

theorem names_take (t : Table) (indices : List Nat) : (t.take indices).names = t.names := by
  simp [take, names]

theorem Valid.take (h : t.Valid) (indices : List Nat) : (t.take indices).Valid :=
  ⟨level_take t indices, names_take t indices ▸ h.2⟩

theorem names_coerce (t : Table) (s : Schema) : (t.coerce s).names = t.names := by
  rw [names, coerce, List.map_map]
  refine List.map_congr_left fun c _ => ?_
  rw [Function.comp]
  split <;> rfl

theorem Level.coerce (h : t.Level) (s : Schema) : (t.coerce s).Level := by
  refine level_of_lengths t.rowCount fun c hc => ?_
  obtain ⟨d, hd, rfl⟩ := List.mem_map.1 hc
  split
  · exact (List.length_map _).trans (h d hd)
  · exact h d hd

/-! ## Operations

What puts columns together yields valid tables, whatever it is given. -/

theorem valid_select {names : List String} (h : t.select names = .ok u) : u.Valid := by
  obtain ⟨_, -, h⟩ := bind_eq_ok.1 h
  exact valid_of_build h

theorem valid_rename {mapping : List (String × String)} (h : t.rename mapping = .ok u) : u.Valid := by
  obtain ⟨_, -, h⟩ := bind_eq_ok.1 h
  exact valid_of_build h

theorem valid_concat {tables : List Table} {names : List String} (h : concat tables names = .ok u) :
    u.Valid := by
  obtain ⟨_, -, h⟩ := bind_eq_ok.1 h
  exact valid_of_build h

theorem valid_join {l r : Table} {leftOn rightOn : List String} {how : JoinType} {layout : JoinLayout}
    (h : l.join r leftOn rightOn how layout = .ok u) : u.Valid := by
  rw [join] at h
  simp only [throw_eq_error, error_bind, ite_error_eq_ok, bind_eq_ok] at h
  obtain ⟨-, _, -, _, -, _, -, _, -, h⟩ := h
  exact valid_of_ofColumns h

theorem valid_aggregateTable {func : AggFunc} {names : List String}
    (h : t.aggregateTable func names = .ok u) : u.Valid := by
  obtain ⟨_, -, h⟩ := bind_eq_ok.1 h
  exact valid_of_ofColumns h

theorem valid_aggregateGroups {func : AggFunc} {keys names : List String}
    (h : t.aggregateGroups keys names func = .ok u) : u.Valid := by
  rw [aggregateGroups] at h
  simp only [bind_eq_ok] at h
  obtain ⟨_, -, _, -, _, -, h⟩ := h
  exact valid_of_ofColumns h

theorem valid_describe (h : Describe.describe t = .ok u) : u.Valid := valid_of_ofColumns h

theorem take_of_dropDuplicates (h : t.dropDuplicates = .ok u) : ∃ indices, u = t.take indices := by
  obtain ⟨_, -, h⟩ := bind_eq_ok.1 h
  exact ⟨_, (Except.ok.inj h).symm⟩

theorem take_of_filter {mask : List Scalar} (h : t.filter mask = .ok u) : ∃ indices, u = t.take indices := by
  rw [filter] at h
  simp only [throw_eq_error, error_bind, ite_error_eq_ok] at h
  exact ⟨_, (Except.ok.inj h.2).symm⟩

/-- Sorting leaves a table without rows as it is. -/
theorem take_of_sortValues {keys : List (String × Bool)} (h : t.sortValues keys = .ok u) :
    u = t ∨ ∃ indices, u = t.take indices := by
  replace h := mapError_eq_ok.1 h
  rw [sortBy] at h
  split at h
  · exact .inl (Except.ok.inj h).symm
  · obtain ⟨_, -, h⟩ := bind_eq_ok.1 h
    exact .inr ⟨_, (Except.ok.inj h).symm⟩

theorem level_dropDuplicates (h : t.dropDuplicates = .ok u) : u.Level := by
  obtain ⟨indices, rfl⟩ := take_of_dropDuplicates h
  exact level_take t indices

theorem level_filter {mask : List Scalar} (h : t.filter mask = .ok u) : u.Level := by
  obtain ⟨indices, rfl⟩ := take_of_filter h
  exact level_take t indices

theorem Level.sortValues (ht : t.Level) {keys : List (String × Bool)} (h : t.sortValues keys = .ok u) :
    u.Level := by
  obtain rfl | ⟨indices, rfl⟩ := take_of_sortValues h
  · exact ht
  · exact level_take t indices

/-- Values take the place of a column if there are as many as rows; a table without columns has only
them. -/
theorem Level.assignColumn (ht : t.Level) {name : String} {values : List Scalar}
    (h : t.assignColumn name values = .ok u) : u.Level := by
  rw [Table.assignColumn] at h
  simp only [throw_eq_error, error_bind, ite_error_eq_ok, not_and_or, not_not] at h
  obtain ⟨hlen, h⟩ := h
  obtain rfl := Except.ok.inj h
  by_cases hempty : t.columns.isEmpty = true
  · rw [List.isEmpty_iff] at hempty
    rw [hempty]
    exact level_singleton _
  · have hlen := hlen.resolve_right (by simp [hempty])
    split
    · refine level_of_lengths t.rowCount fun c hc => ?_
      exact (List.mem_or_eq_of_mem_set hc).elim (ht c) fun e => e ▸ hlen
    · refine level_of_lengths t.rowCount fun c hc => ?_
      exact (List.mem_append.1 hc).elim (ht c) fun hc => List.mem_singleton.1 hc ▸ hlen

end Table

namespace Result

/-- The result is no table with columns of different lengths. -/
def Level (r : Result) : Prop := ∀ t, r = .table t → t.Level

theorem level_table {t : Table} (h : t.Level) : (table t).Level := fun _ ht => Result.table.inj ht ▸ h

theorem toTable_level {r : Result} (hr : r.Level) {columns : List String} {t : Table}
    (h : r.toTable columns = .ok t) : t.Level := by
  cases r with
  | table u => exact Except.ok.inj h ▸ hr u rfl
  | series => exact (Table.valid_of_build h).level
  | scalar =>
    cases columns with
    | nil => cases h
    | cons => exact (Table.valid_of_build h).level

theorem level_collapse {t : Table} (h : t.Level) : (collapse t).Level := by
  rw [collapse]
  split
  · exact level_table h
  · split <;> nofun

end Result
end LazyQuery
