import LazyQuery.Proofs.Table.CheckedSummaries

/-!
# Operations on valid tables

A `Call` is an operation on tables with its arguments. It can be run (`Call.run`), or run with every place
looked at before it is read and any `Sorter` (`Call.checked`). On valid tables nothing is read that is not
there, and what a call yields is a valid table or can be viewed as one. A sort can give up only where a float
straddles two integers in a key column (`Call.Straddles`); otherwise the two do not differ
(`Call.checked_and_valid`).

Columns are chosen, renamed and stacked by name, and aggregates and views go through the columns one by one:
these calls read nothing by its place.
-/

set_option autoImplicit false

namespace LazyQuery

/-! ## Valid tables -/

namespace Table

variable {t u : Table}

theorem Valid.dropDuplicates (ht : t.Valid) (h : t.dropDuplicates = .ok u) : u.Valid := by
  obtain ⟨indices, rfl⟩ := take_of_dropDuplicates h
  exact ht.take indices

theorem Valid.filter (ht : t.Valid) {mask : List Scalar} (h : t.filter mask = .ok u) : u.Valid := by
  obtain ⟨indices, rfl⟩ := take_of_filter h
  exact ht.take indices

theorem Valid.sortValues (ht : t.Valid) {keys : List (String × Bool)} (h : t.sortValues keys = .ok u) :
    u.Valid := by
  obtain rfl | ⟨indices, rfl⟩ := take_of_sortValues h
  · exact ht
  · exact ht.take indices

theorem Valid.assignColumn (ht : t.Valid) {name : String} {values : List Scalar}
    (h : t.assignColumn name values = .ok u) : u.Valid := by
  refine ⟨ht.level.assignColumn h, ?_⟩
  obtain rfl := assignColumn_eq_put ht.2 h
  exact nodup_putNamed ht.2 _

theorem length_columnStats (values : List Scalar) :
    (Describe.columnStats values).length = Describe.statistics.length := by
  rw [Describe.columnStats]
  dsimp only
  split <;> rfl

/-- The statistics of a table are refused only if one of its columns is called like that of their labels. -/
theorem Valid.describe_isOk (ht : t.Valid) (h : Describe.labelColumn ∉ t.names) :
    ∃ u, Describe.describe t = .ok u := by
  refine ⟨_, mapError_eq_ok.2 (ofColumns_eq_ok.2 ⟨rfl, level_of_lengths Describe.statistics.length ?_, ?_⟩)⟩
  · refine List.forall_mem_cons.2 ⟨List.length_map _, fun c hc => ?_⟩
    obtain ⟨d, -, rfl⟩ := List.mem_map.1 hc
    exact length_columnStats d.values
  · rw [names, List.map_cons, List.map_map]
    exact List.nodup_cons.2 ⟨h, ht.2⟩

end Table

/-! ## Views of results -/

namespace Result

/-- Every view of the result is a valid table; only a single value cannot be viewed without a name. -/
def ViewsValid (r : Result) : Prop :=
  ∀ names, (∃ v, r = .scalar v ∧ names = []) ∨ ∃ u, r.toTable names = .ok u ∧ u.Valid

variable {t : Table}

theorem viewsValid_table (ht : t.Valid) : (table t).ViewsValid := fun _ => .inr ⟨t, rfl, ht⟩

/-- Cells under distinct names are a row. -/
theorem valid_row {entries : List (String × Scalar)} (h : (entries.map (·.1)).Nodup) :
    (Table.mk (entries.map fun (name, v) => ⟨name, [v]⟩)).Valid := by
  constructor
  · refine Table.level_of_lengths 1 fun c hc => ?_
    obtain ⟨entry, -, rfl⟩ := List.mem_map.1 hc
    rfl
  · rw [Table.names, List.map_map]
    exact h

theorem viewsValid_series {entries : List (String × Scalar)} (h : (entries.map (·.1)).Nodup) :
    (series entries).ViewsValid :=
  fun _ => .inr ⟨_, Table.build_eq_ok.2 ⟨rfl, valid_row h⟩, valid_row h⟩

theorem viewsValid_scalar (v : Scalar) : (scalar v).ViewsValid := by
  intro names
  cases names with
  | nil => exact .inl ⟨v, rfl, rfl⟩
  | cons name _ =>
    have hname : ([(name, v)].map (·.1)).Nodup := List.nodup_singleton name
    exact .inr ⟨_, Table.build_eq_ok.2 ⟨rfl, valid_row hname⟩, valid_row hname⟩

theorem viewsValid_collapse (ht : t.Valid) : (collapse t).ViewsValid := by
  rw [collapse]
  split
  · exact viewsValid_table ht
  · split
    · exact viewsValid_scalar _
    · refine viewsValid_series ?_
      rw [List.map_map]
      exact ht.2

end Result

/-! ## Calls -/

/-- A call of an operation on tables. -/
inductive Call
  | select (t : Table) (names : List String)
  | rename (t : Table) (mapping : List (String × String))
  | dropDuplicates (t : Table)
  | concat (tables : List Table) (names : List String)
  | assignColumn (t : Table) (name : String) (values : List Scalar)
  | filter (t : Table) (mask : List Scalar)
  | limit (t : Table) (n : Nat)
  | sortValues (t : Table) (keys : List (String × Bool))
  | join (left right : Table) (leftOn rightOn : List String) (how : JoinType) (layout : JoinLayout)
  | aggregateTable (t : Table) (func : AggFunc) (names : List String)
  | aggregateGroups (t : Table) (keys names : List String) (func : AggFunc)
  | describe (t : Table)
  | collapse (t : Table)
  | view (t : Table) (names : List String)
  | viewCollapsed (t : Table) (names : List String)

namespace Call

/-- The tables that a call is given. -/
def tables : Call → List Table
  | concat tables _ => tables
  | join left right _ _ _ _ => [left, right]
  | select t _ | rename t _ | dropDuplicates t | assignColumn t _ _ | filter t _ | limit t _
  | sortValues t _ | aggregateTable t _ _ | aggregateGroups t _ _ _ | describe t | collapse t
  | view t _ | viewCollapsed t _ => [t]

/-- What a call yields. -/
def run : Call → Except FrameError Result
  | select t names => .table <$> t.select names
  | rename t mapping => .table <$> t.rename mapping
  | dropDuplicates t => .table <$> t.dropDuplicates
  | concat tables names => .table <$> Table.concat tables names
  | assignColumn t name values => .table <$> t.assignColumn name values
  | filter t mask => .table <$> t.filter mask
  | limit t n => pure (.table (t.limit n))
  | sortValues t keys => .table <$> t.sortValues keys
  | join left right leftOn rightOn how layout => .table <$> left.join right leftOn rightOn how layout
  | aggregateTable t func names => .table <$> t.aggregateTable func names
  | aggregateGroups t keys names func => .table <$> t.aggregateGroups keys names func
  | describe t => .table <$> Describe.describe t
  | collapse t => pure (Result.collapse t)
  | view t names => .table <$> (Result.table t).toTable names
  | viewCollapsed t names => .table <$> (Result.collapse t).toTable names

/-- The same, with every place looked at before it is read, and sorted as given. -/
def checked (sorter : Sorter) : Call → Checked Result
  | select t names => .table <$> Checked.plain (t.select names)
  | rename t mapping => .table <$> Checked.plain (t.rename mapping)
  | dropDuplicates t => .table <$> Checked.dropDuplicates t
  | concat tables names => .table <$> Checked.plain (Table.concat tables names)
  | assignColumn t name values => .table <$> Checked.assignColumn t name values
  | filter t mask => .table <$> Checked.filter t mask
  | limit t n => .table <$> Checked.limit t n
  | sortValues t keys => .table <$> Checked.sortValues sorter t keys
  | join left right leftOn rightOn how layout =>
    .table <$> Checked.join left right leftOn rightOn how layout
  | aggregateTable t func names => .table <$> Checked.plain (t.aggregateTable func names)
  | aggregateGroups t keys names func => .table <$> Checked.aggregateGroups sorter t keys names func
  | describe t => .table <$> Checked.describe t
  | collapse t => Checked.collapse t
  | view t names => .table <$> Checked.plain ((Result.table t).toTable names)
  | viewCollapsed t names => do
    let r ← Checked.collapse t
    .table <$> Checked.plain (r.toTable names)

open Checked in
theorem table_mirrors {w : Checked Table} {x : Except FrameError Table} (h : Mirrors Eq w x) :
    Mirrors Eq (Result.table <$> w) (Result.table <$> x) := by
  rw [map_eq_pure_bind, map_eq_pure_bind]
  exact h.bind_eq fun _ _ => mirrors_ok rfl

/-- Does a float straddle two integers in a column that the call sorts by? -/
def Straddles : Call → Prop
  | sortValues t keys => ∃ k ∈ keys, ∃ c, t.column? k.1 = some c ∧ Straddled c.values
  | aggregateGroups t keys _ _ => ∃ k ∈ keys, ∃ c, t.column? k = some c ∧ Straddled c.values
  | _ => False

open Checked in
theorem checked_mirrors (sorter : Sorter) (c : Call) (hvalid : ∀ t ∈ c.tables, t.Level)
    (hcounted : ∀ t, c = .describe t → t.rowCount < 2 ^ 64) (hs : ¬ c.Straddles) :
    Mirrors Eq (c.checked sorter) c.run := by
  cases c with
  | select | rename | concat | aggregateTable | view => exact table_mirrors (mirrors_plain _)
  | dropDuplicates t => exact table_mirrors (dropDuplicates_mirrors (hvalid t List.mem_cons_self))
  | assignColumn t name values => exact table_mirrors (assignColumn_mirrors t name values)
  | filter t mask => exact table_mirrors (filter_mirrors (hvalid t List.mem_cons_self) mask)
  | limit t n =>
    rw [checked, limit_eq (hvalid t List.mem_cons_self)]
    exact mirrors_ok rfl
  | sortValues t keys =>
    exact table_mirrors (sortValues_mirrors (hvalid t List.mem_cons_self) sorter fun k hk c hc hstraddled =>
      hs ⟨k, hk, c, hc, hstraddled⟩)
  | join left right leftOn rightOn how layout =>
    exact table_mirrors (join_mirrors (hvalid left List.mem_cons_self)
      (hvalid right (List.mem_cons_of_mem _ List.mem_cons_self)) leftOn rightOn how layout)
  | aggregateGroups t keys names func =>
    exact table_mirrors (aggregateGroups_mirrors (hvalid t List.mem_cons_self) sorter names func
      fun k hk c hc hstraddled => hs ⟨k, hk, c, hc, hstraddled⟩)
  | describe t => exact table_mirrors (describe_mirrors (hvalid t List.mem_cons_self) (hcounted t rfl))
  | collapse t => exact mirrors_eq_iff.2 (collapse_eq t)
  | viewCollapsed t names =>
    rw [checked, collapse_eq, ok_bind]
    exact table_mirrors (mirrors_plain _)

theorem viewsValid_of_map {x : Except FrameError Table} (hx : ∀ t, x = .ok t → t.Valid) {r : Result}
    (h : Result.table <$> x = .ok r) : r.ViewsValid := by
  rw [map_eq_pure_bind, bind_eq_ok] at h
  obtain ⟨t, ht, h⟩ := h
  exact Except.ok.inj h ▸ Result.viewsValid_table (hx t ht)

theorem run_viewsValid (c : Call) (hvalid : ∀ t ∈ c.tables, t.Valid) {r : Result} (h : c.run = .ok r) :
    r.ViewsValid := by
  cases c with
  | select => exact viewsValid_of_map (fun _ => Table.valid_select) h
  | rename => exact viewsValid_of_map (fun _ => Table.valid_rename) h
  | dropDuplicates t => exact viewsValid_of_map (fun _ => (hvalid t List.mem_cons_self).dropDuplicates) h
  | concat => exact viewsValid_of_map (fun _ => Table.valid_concat) h
  | assignColumn t => exact viewsValid_of_map (fun _ => (hvalid t List.mem_cons_self).assignColumn) h
  | filter t => exact viewsValid_of_map (fun _ => (hvalid t List.mem_cons_self).filter) h
  | limit t n => exact Except.ok.inj h ▸ Result.viewsValid_table ((hvalid t List.mem_cons_self).take _)
  | sortValues t => exact viewsValid_of_map (fun _ => (hvalid t List.mem_cons_self).sortValues) h
  | join => exact viewsValid_of_map (fun _ => Table.valid_join) h
  | aggregateTable => exact viewsValid_of_map (fun _ => Table.valid_aggregateTable) h
  | aggregateGroups => exact viewsValid_of_map (fun _ => Table.valid_aggregateGroups) h
  | describe => exact viewsValid_of_map (fun _ => Table.valid_describe) h
  | collapse t => exact Except.ok.inj h ▸ Result.viewsValid_collapse (hvalid t List.mem_cons_self)
  | view t => exact viewsValid_of_map (fun _ hu => Except.ok.inj hu ▸ hvalid t List.mem_cons_self) h
  | viewCollapsed t names =>
    refine viewsValid_of_map (fun u hu => ?_) h
    obtain ⟨v, hv, rfl⟩ | ⟨u', hu', hview⟩ := Result.viewsValid_collapse (hvalid t List.mem_cons_self) names
    · rw [hv] at hu
      cases hu
    · exact Except.ok.inj (hu'.symm.trans hu) ▸ hview

open Checked in
theorem table_inRange {w : Checked Table} (h : InRange Table.Valid w) :
    InRange Result.ViewsValid (Result.table <$> w) := by
  rw [map_eq_pure_bind]
  exact h.bind fun _ ht => Result.viewsValid_table ht

open Checked in
theorem checked_inRange (sorter : Sorter) (c : Call) (hvalid : ∀ t ∈ c.tables, t.Valid)
    (hcounted : ∀ t, c = .describe t → t.rowCount < 2 ^ 64) :
    InRange Result.ViewsValid (c.checked sorter) := by
  by_cases hs : c.Straddles
  · -- Only sorts and groups are left, and these may give up.
    cases c with
    | sortValues t keys => exact table_inRange (sortValues_inRange (hvalid t List.mem_cons_self) sorter keys)
    | aggregateGroups t keys names func =>
      exact table_inRange (aggregateGroups_inRange (hvalid t List.mem_cons_self).level sorter keys names func)
    | _ => exact hs.elim
  · refine (c.checked_mirrors sorter (fun t ht => (hvalid t ht).level) hcounted hs).inRange ?_
    rintro r _ hr rfl
    exact c.run_viewsValid hvalid hr

/-- **Operations keep to valid tables.** Given valid tables, a call reads nothing that is not there, be it a
row, a column or one of the sorted values of a column, however tables are sorted. It is refused, or what it
yields is a valid table or can be viewed as one; only a sort may give up, and only where a float straddles two
integers in a column that is sorted by. Otherwise it makes no difference to look before reading, or which
way tables are sorted. Rows are counted in words, on which the places of quantiles depend. -/
theorem checked_and_valid (sorter : Sorter) (c : Call) (hvalid : ∀ t ∈ c.tables, t.Valid)
    (hcounted : ∀ t, c = .describe t → t.rowCount < 2 ^ 64) :
    (∀ place length, c.checked sorter ≠ .error (.outOfRange place length)) ∧
      (∀ r, c.checked sorter = .ok r → r.ViewsValid) ∧
      (c.checked sorter = .error .gaveUp → c.Straddles) ∧
      (¬ c.Straddles → c.checked sorter = Checked.plain c.run) := by
  have hrange := c.checked_inRange sorter hvalid hcounted
  have hsame (hs : ¬ c.Straddles) : c.checked sorter = Checked.plain c.run :=
    Checked.mirrors_eq_iff.1 (c.checked_mirrors sorter (fun t ht => (hvalid t ht).level) hcounted hs)
  refine ⟨hrange.ne_outOfRange, fun r => hrange.of_ok, fun h => by_contra fun hs => ?_, hsame⟩
  exact Checked.plain_ne_gaveUp _ ((hsame hs).symm.trans h)

/-- Two integers beside the float that both are rounded to. -/
def straddledTable : Table :=
  ⟨[⟨"n", [.int 9007199254740993, .int 9007199254740992]
    ++ List.replicate 4 (.int 9007199254740993) ++ List.replicate 6 (.float ⟨0x4340000000000000⟩)
    ++ List.replicate 12 (.int 9007199254740992)⟩]⟩

/-- A column of numbers beside one of texts. -/
def mixedTable : Table := ⟨[⟨"n", [.int 1, .int 3]⟩, ⟨"s", [.text "a", .null]⟩]⟩

/-- The sort of the table by its column. -/
def straddledSort : Call := sortValues straddledTable [("n", true)]

/-- The numbers of its rows, with their key cells. -/
def straddledRows : List (Nat × List Scalar) :=
  (List.range 24).map fun i => (i, Table.cells straddledTable.columns i)

open Checked in
theorem checked_straddledSort (sorter : Sorter) :
    straddledSort.checked sorter = Result.table <$> (do
      let rows ← sorted sorter (fun a b => compareCells [true] a.2 b.2) straddledRows
      take straddledTable (rows.map (·.1))) := by
  have hrows : eachRow straddledTable ["n"] Prod.mk = .ok straddledRows := by decide +kernel
  rw [straddledSort, checked, Checked.sortValues, if_neg (by decide)]
  exact congrArg (fun rows => Result.table <$> (rows >>= _)) hrows

open Checked in
theorem straddledSort_gaveUp : straddledSort.checked .strict = .error .gaveUp := by
  -- The row 6 ties with the rows 0 and 1, of which the first does not precede the second.
  have hsorts : ¬ Sorts (fun a b => compareCells [true] a.2 b.2) straddledRows :=
    not_sorts_of_straddles (List.mem_map_of_mem (a := 0) (by decide))
      (List.mem_map_of_mem (a := 6) (by decide)) (List.mem_map_of_mem (a := 1) (by decide)) rfl rfl rfl
  rw [checked_straddledSort, sorted, Sorter.strict_eq_none hsorts]
  rfl

/-- Where a float straddles two integers, a sort may give up, or yield a valid table. It does not give up on
texts. -/
theorem checked_and_valid_straddled :
    (∀ t ∈ straddledSort.tables, t.Valid) ∧ straddledSort.checked .strict = .error .gaveUp ∧
      straddledSort.Straddles ∧ (∃ r, straddledSort.checked .merging = .ok r ∧ r.ViewsValid) ∧
      ∃ r, (sortValues mixedTable [("s", false)]).checked .strict = .ok r ∧ r.ViewsValid := by
  have hlevel : straddledTable.Level := List.forall_mem_singleton.2 rfl
  have hvalid : ∀ t ∈ straddledSort.tables, t.Valid :=
    List.forall_mem_singleton.2 ⟨hlevel, by decide⟩
  have hmixed : ∀ t ∈ (sortValues mixedTable [("s", false)]).tables, t.Valid :=
    List.forall_mem_singleton.2 ⟨Table.level_of_lengths 2 (by decide), by decide⟩
  have htexts : ¬ (sortValues mixedTable [("s", false)]).Straddles := by
    rintro ⟨k, hk, c, hc, a, ha, -, -, -, -, ⟨hint⟩⟩
    obtain rfl := List.mem_singleton.1 hk
    obtain rfl := Option.some.inj hc
    rcases List.mem_pair.1 ha with rfl | rfl <;> cases hint
  obtain ⟨-, -, hstraddles, -⟩ := checked_and_valid .strict straddledSort hvalid nofun
  obtain ⟨-, hmerged, -, -⟩ := checked_and_valid .merging straddledSort hvalid nofun
  obtain ⟨-, hsorted, -, hsame⟩ := checked_and_valid .strict _ hmixed nofun
  refine ⟨hvalid, straddledSort_gaveUp, hstraddles straddledSort_gaveUp, ?_, ?_⟩
  · have hrun : straddledSort.checked .merging = Result.table <$> Checked.take straddledTable
        ((straddledRows.mergeSort fun a b => Checked.compareCells [true] a.2 b.2 != .gt).map (·.1)) :=
      checked_straddledSort .merging
    have hrows : ∀ r ∈ straddledRows, r.1 < straddledTable.rowCount := by decide
    rw [Checked.take_eq hlevel fun i hi => ?_] at hrun
    · exact ⟨_, hrun, hmerged _ hrun⟩
    · obtain ⟨r, hr, rfl⟩ := List.mem_map.1 hi
      exact hrows r (List.mem_mergeSort.1 hr)
  · exact ⟨_, hsame htexts, hsorted _ (hsame htexts)⟩

end Call
end LazyQuery
