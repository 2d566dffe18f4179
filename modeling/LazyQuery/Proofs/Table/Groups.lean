import LazyQuery.Proofs.Summary.Totals
import LazyQuery.Proofs.Table.Rows

/-!
# Aggregation of plain cells

An aggregation by count, sum, minimum or maximum of plain cells has a value of the type that is
declared for it, unless a sum leaves the range of integers (`aggregate_admits`, `aggregate_failsOnly`).
So an aggregation of a table or of its groups can fail for that reason only.

* `sum_eq` says that a sum of integers is exact as long as all running sums fit.
* `groups_ok` says which rows the groups consist of: each is represented by its first row.
* `aggregateTable_ok` and `aggregateGroups_ok` say which rows the result has.
-/

set_option autoImplicit false

namespace LazyQuery

/-- Is the function a count, sum, minimum or maximum? -/
def AggFunc.isPlain : AggFunc → Bool
  | count | sum | min | max => true
  | mean | prod | any | all => false

/-! ## Single aggregates -/

namespace Aggregate

/-- The running sum of integers, as long as it fits. -/
def exactSum (start : Int64) (values : List Scalar) : Option Int64 :=
  (values.filterMap Scalar.int?).foldlM Word.add? start

/-- **A sum of integers is exact, or it is refused.** -/
theorem sum_eq {values : List Scalar} (h : ∀ v ∈ values, v.int?.isSome = true) :
    sum values = match exactSum 0 values with
      | some total => .ok (.int total)
      | none => .error (.overflow "sum") := by
  obtain ⟨f, hf, hspec⟩ := Fold.foldlM_integers Word.add? (· + ·) h 0
  rw [sum, hf, ok_bind, exactSum]
  cases hsum : (values.filterMap Scalar.int?).foldlM Word.add? 0 with
  | some total =>
    rw [hsum] at hspec
    rw [hspec]
    rfl
  | none =>
    rw [hsum] at hspec
    rw [if_pos (by simp [hspec.1, hspec.2.1])]
    rfl

/-- What is chosen one after the other is one of what there is. -/
theorem foldl_mem {choose : Scalar → Scalar → Scalar} (h : ∀ a b, choose a b = a ∨ choose a b = b)
    (rest : List Scalar) (v : Scalar) : rest.foldl choose v ∈ v :: rest := by
  induction rest generalizing v with
  | nil => simp
  | cons w rest ih =>
    rw [List.foldl_cons]
    rcases List.mem_cons.1 (ih (choose v w)) with hmem | hmem
    · rw [hmem]
      rcases h v w with h | h <;> simp [h]
    · simp [hmem]

theorem min_mem {values : List Scalar} (h : values ≠ []) : min values ∈ values := by
  cases values with
  | nil => exact absurd rfl h
  | cons v rest => exact foldl_mem (fun a b => by split <;> simp) rest v

theorem max_mem {values : List Scalar} (h : values ≠ []) : max values ∈ values := by
  cases values with
  | nil => exact absurd rfl h
  | cons v rest => exact foldl_mem (fun a b => by split <;> simp) rest v

end Aggregate

/-- Can the cells of a type be aggregated by a function? Texts cannot be summed. -/
def AggFunc.takes (func : AggFunc) (t : DataType) : Bool :=
  func.isPlain && t.isPlain && (!func.requiresNumeric || t.isNumeric || t == .null)

theorem AggFunc.isPlain_resultType {func : AggFunc} {t : DataType} (h : func.takes t = true) :
    (func.resultType t).isPlain = true := by
  cases func <;> cases t <;> first | rfl | exact absurd h Bool.false_ne_true

theorem int?_isSome_of_admits {t : DataType} {v : Scalar} (h : t.admits v = true)
    (ht : AggFunc.takes .sum t = true) (hv : (!v.isNull) = true) : v.int?.isSome = true := by
  cases v <;> cases t <;> simp_all [DataType.admits, Scalar.isPlain, Scalar.isNull, Scalar.dataType,
    Scalar.int?, AggFunc.takes, DataType.isNumeric, AggFunc.requiresNumeric]

/-- **An aggregate of plain cells is of the declared type**, or it is a sum that is refused. -/
theorem aggregate_admits {func : AggFunc} {t : DataType} (hf : func.takes t = true)
    {values : List Scalar} (h : ∀ v ∈ values, t.admits v = true) :
    (∃ v, aggregate func values = .ok v ∧ (func.resultType t).admits v = true) ∨
      aggregate func values = .error (.overflow "sum") := by
  have hpresent : ∀ v ∈ values.filter (fun v => !v.isNull), t.admits v = true ∧ (!v.isNull) = true :=
    fun v hv => ⟨h v (List.mem_filter.1 hv).1, (List.mem_filter.1 hv).2⟩
  unfold aggregate
  dsimp only
  generalize values.filter (fun v => !v.isNull) = present at hpresent
  cases func
  case mean | prod | any | all => exact absurd hf Bool.false_ne_true
  case count => exact .inl ⟨_, rfl, rfl⟩
  case sum =>
    have hint : ∀ v ∈ present, v.int?.isSome = true := fun v hv =>
      int?_isSome_of_admits (hpresent v hv).1 hf (hpresent v hv).2
    rw [Aggregate.sum_eq hint]
    cases Aggregate.exactSum 0 present with
    | some total =>
      refine .inl ⟨_, rfl, ?_⟩
      cases t <;> first | rfl | exact absurd hf Bool.false_ne_true
    | none => exact .inr rfl
  case min =>
    refine .inl ⟨_, rfl, ?_⟩
    cases present with
    | nil => exact DataType.admits_null _
    | cons v rest => exact (hpresent _ (Aggregate.min_mem (by simp))).1
  case max =>
    refine .inl ⟨_, rfl, ?_⟩
    cases present with
    | nil => exact DataType.admits_null _
    | cons v rest => exact (hpresent _ (Aggregate.max_mem (by simp))).1

/-- The aggregate of a column, where there is one. -/
def aggregateOf (func : AggFunc) (values : List Scalar) : Scalar :=
  (aggregate func values).toOption.getD .null

theorem aggregate_ok {func : AggFunc} {t : DataType} (hf : func.takes t = true)
    {values : List Scalar} (h : ∀ v ∈ values, t.admits v = true)
    (hno : aggregate func values ≠ .error (.overflow "sum")) :
    aggregate func values = .ok (aggregateOf func values) ∧
      (func.resultType t).admits (aggregateOf func values) = true := by
  obtain ⟨v, hv, hadm⟩ := (aggregate_admits hf h).resolve_right hno
  rw [aggregateOf, hv]
  exact ⟨rfl, hadm⟩

namespace Table

variable {t : Table} {s s' : Schema} {k : Nat} {keys columns : List String} {func : AggFunc}

/-! ## Whole tables -/

/-- The fields of aggregated columns. -/
def AggregatedBy (s : Schema) (func : AggFunc) (n : String) (f : Field) : Prop :=
  ∃ g, s.field? n = some g ∧ func.takes g.type = true ∧ f.name = n ∧ f.type = func.resultType g.type

/-- The aggregates of a column over some rows each are had, unless a sum is refused. -/
theorem mapM_aggregate_ok {type : DataType} (values : List Nat → List Scalar)
    (htakes : func.takes type = true) (hv : ∀ rows, ∀ v ∈ values rows, type.admits v = true)
    (groups : List (List Nat)) :
    (groups.mapM (fun rows => aggregate func (values rows)) =
        .ok (groups.map fun rows => aggregateOf func (values rows)) ∧
      ∀ rows ∈ groups, aggregate func (values rows) = .ok (aggregateOf func (values rows)) ∧
        (func.resultType type).admits (aggregateOf func (values rows)) = true) ∨
      groups.mapM (fun rows => aggregate func (values rows)) = .error (.overflow "sum") := by
  induction groups with
  | nil => exact .inl ⟨rfl, by simp⟩
  | cons rows rest ih =>
    rw [List.mapM_cons]
    by_cases herr : aggregate func (values rows) = .error (.overflow "sum")
    · exact .inr (by rw [herr]; rfl)
    · have hrows := aggregate_ok htakes (hv rows) herr
      rw [hrows.1]
      rcases ih with ⟨hrest, hall⟩ | hrest
      · rw [hrest]
        exact .inl ⟨rfl, List.forall_mem_cons.2 ⟨hrows, hall⟩⟩
      · exact .inr (by rw [hrest]; rfl)

/-- The columns of aggregates over some rows each. -/
def aggregatesOver (t : Table) (func : AggFunc) (columns : List String) (groups : List (List Nat)) :
    List Column :=
  columns.map fun n => ⟨n, groups.map fun g => aggregateOf func (g.map (t.cell n))⟩

/-- Aggregates of columns over some rows each are had, unless a sum is refused. -/
theorem aggregates_ok (ht : t.Conforms s) {fields : List Field} (groups : List (List Nat))
    (hf : List.Forall₂ (AggregatedBy s func) columns fields)
    {step : String → Except FrameError Column}
    (hstep : ∀ {n c}, t.column? n = some c → step n = (do
      let values ← groups.mapM fun g => aggregate func (g.map (t.cell n))
      pure (Column.mk n values))) :
    (columns.mapM step = .ok (t.aggregatesOver func columns groups) ∧
      List.Forall₂ (Column.Conforms groups.length) (t.aggregatesOver func columns groups) fields ∧
        ∀ n ∈ columns, ∀ g ∈ groups, aggregate func (g.map (t.cell n)) =
          .ok (aggregateOf func (g.map (t.cell n)))) ∨
      columns.mapM step = .error (.overflow "sum") := by
  induction hf with
  | nil => exact .inl ⟨rfl, .nil, by simp⟩
  | @cons n f columns fields hnf _ ih =>
    obtain ⟨g, hg, htakes, hname, htype⟩ := hnf
    obtain ⟨c, hc, -⟩ := ht.column? hg
    rw [List.mapM_cons, hstep hc]
    rcases mapM_aggregate_ok (fun rows => rows.map (t.cell n)) htakes (fun rows v hv => by
        obtain ⟨i, -, rfl⟩ := List.mem_map.1 hv
        exact ht.admits_cell hg i) groups with ⟨hmap, hall⟩ | herr
    · rw [hmap]
      rcases ih with ⟨hrest, hconf, hrestAll⟩ | hrest
      · rw [hrest]
        refine .inl ⟨rfl, .cons ⟨hname.symm, ?_, by simp, fun v hv => ?_⟩ hconf,
          List.forall_mem_cons.2 ⟨fun rows hrows => (hall rows hrows).1, hrestAll⟩⟩
        · rw [htype]
          exact AggFunc.isPlain_resultType htakes
        · obtain ⟨rows, hrows, rfl⟩ := List.mem_map.1 hv
          rw [htype]
          exact (hall rows hrows).2
      · exact .inr (by rw [hrest]; rfl)
    · exact .inr (by rw [herr]; rfl)

theorem aggregateTable_ok (ht : t.Conforms s) (hd : s'.Distinct)
    (hf : List.Forall₂ (AggregatedBy s func) columns s'.fields)
    (hno : t.aggregateTable func columns ≠ .error (.overflow "sum")) :
    ∃ out, t.aggregateTable func columns = .ok ⟨out⟩ ∧
      out = t.aggregatesOver func columns [List.range t.rowCount] ∧
      List.Forall₂ (Column.Conforms 1) out s'.fields ∧
        ∀ n ∈ columns, aggregate func ((List.range t.rowCount).map (t.cell n)) =
          .ok (aggregateOf func ((List.range t.rowCount).map (t.cell n))) := by
  have hstep : ∀ {n c}, t.column? n = some c → (do
      let c ← t.need n
      pure (Column.mk n [← aggregate func c.values]) : Except FrameError Column) = (do
      let values ← [List.range t.rowCount].mapM fun g => aggregate func (g.map (t.cell n))
      pure (Column.mk n values)) := by
    intro n c hc
    rw [need, hc]
    simp only [pure_eq_ok, ok_bind, List.mapM_cons, List.mapM_nil, ← ht.values_eq hc]
    cases aggregate func c.values <;> rfl
  rw [aggregateTable] at hno ⊢
  rcases aggregates_ok ht [List.range t.rowCount] hf hstep with ⟨hmap, hconf, hall⟩ | herr
  · refine ⟨_, ?_, rfl, hconf, fun n hn => hall n hn _ (by simp)⟩
    rw [hmap, ok_bind, ofColumns_ok hconf hd]
    rfl
  · rw [herr] at hno
    exact absurd rfl hno

/-! ## Groups -/

/-- The rows with the key of a row. -/
def groupOf (t : Table) (keys : List String) (i : Nat) : List Nat :=
  (List.range t.rowCount).filter fun j =>
    Scalar.keyOf (keys.map fun n => t.cell n j) == Scalar.keyOf (keys.map fun n => t.cell n i)

/-- The first rows of the groups, in the order of the groups. -/
def groupRows (t : Table) (keys : List String) : List Nat :=
  (firstPositions [] 0 ((List.range t.rowCount).map fun i =>
    Scalar.keyOf (keys.map fun n => t.cell n i))).mergeSort fun i j =>
      Scalar.compareTuple (keys.map fun n => t.cell n i) (keys.map fun n => t.cell n j) != .gt

/-- The groups of an aggregation: all rows together, or those with equal keys. -/
def groupsOf (t : Table) (keys : List String) : List (List Nat) :=
  if keys = [] then [List.range t.rowCount] else (t.groupRows keys).map (t.groupOf keys)

/-- The row of a group: the key cells of its first row and the aggregates. -/
def aggregatedRow (t : Table) (keys columns : List String) (func : AggFunc) (group : List Nat) :
    List Scalar :=
  (keys.map (t.cell · (group.headD 0))) ++ columns.map fun c => aggregateOf func (group.map (t.cell c))

end Table

/-- The first of the positions that pass a test. -/
theorem headD_filter_range {n i : Nat} {test : Nat → Bool} (hi : i < n) (ht : test i = true)
    (hbefore : ∀ j, j < i → test j = false) : ((List.range n).filter test).headD 0 = i := by
  have split : List.range n = List.range i ++ i :: List.range' (i + 1) (n - i - 1) := by
    have happend := List.range'_append_1 (s := 0) (m := i) (n := n - i - 1 + 1)
    rw [Nat.zero_add, List.range'_succ, show i + (n - i - 1 + 1) = n by omega] at happend
    rw [List.range_eq_range', List.range_eq_range', happend]
  have none : (List.range i).filter test = [] :=
    List.filter_eq_nil_iff.2 fun j hj => by simp [hbefore j (List.mem_range.1 hj)]
  rw [split, List.filter_append, none, List.filter_cons_of_pos ht]
  rfl

namespace Table

variable {t : Table} {s s' : Schema} {k : Nat} {keys columns : List String} {func : AggFunc}

theorem headD_groupOf {i : Nat} (h : i ∈ t.groupRows keys) : (t.groupOf keys i).headD 0 = i := by
  rw [groupRows, List.mem_mergeSort] at h
  obtain ⟨hi, hbefore⟩ := mem_firstPositions.1 h
  exact headD_filter_range hi (by simp) fun j hj => by simpa using hbefore j hj

/-- The groups, each represented by its first row. -/
theorem groups_ok (hk : ∀ n ∈ keys, n ∈ t.names) :
    t.groups keys = .ok ((t.groupRows keys).map (t.groupOf keys)) := by
  obtain ⟨keyColumns, hkeys, hcolumns⟩ := keyColumns_ok hk
  rw [groups, rowDigests_ok hk, ok_bind, hkeys, ok_bind, pure_eq_ok, Except.ok.injEq, classes]
  generalize hdigests : (List.range t.rowCount).map
    (fun i => Scalar.keyOf (keys.map fun n => t.cell n i)) = digests
  have hclass : ∀ i ∈ firstPositions [] 0 digests, positionsOf digests (digests.getD i []) =
      t.groupOf keys i := by
    intro i hi
    subst hdigests
    have hlt := (mem_firstPositions.1 hi).1
    rw [positionsOf, groupOf, positions_where _ (· == _)]
    simp [hlt]
  rw [List.map_congr_left hclass, groupRows, hdigests]
  refine (List.map_mergeSort fun i hi j hj => ?_).symm
  have first : ∀ i ∈ firstPositions [] 0 digests, cells keyColumns ((t.groupOf keys i).headD 0) =
      keys.map fun n => t.cell n i := by
    intro i hi
    rw [cells_eq hcolumns, headD_groupOf]
    rwa [groupRows, hdigests, List.mem_mergeSort]
  dsimp only
  rw [first i hi, first j hj]

theorem groups_eq_ok {gs : List (List Nat)} : t.groups keys = .ok gs ↔
    (∀ n ∈ keys, n ∈ t.names) ∧ gs = (t.groupRows keys).map (t.groupOf keys) := by
  constructor
  · intro h
    obtain ⟨_, hdigests, -⟩ := bind_eq_ok.1 h
    obtain ⟨_, hcolumns, -⟩ := bind_eq_ok.1 hdigests
    have hk : ∀ n ∈ keys, n ∈ t.names := fun n hn => by
      obtain ⟨c, -, hc⟩ := exists_of_mem_left (keyColumns_eq_ok.1 hcolumns) hn
      exact mem_names_of_column? hc
    exact ⟨hk, Except.ok.inj (h.symm.trans (groups_ok hk))⟩
  · rintro ⟨hk, rfl⟩
    exact groups_ok hk

/-- **An aggregation of groups, column by column**: the key cells are those of the first rows, and each
other column has an aggregate for each group. -/
theorem aggregateGroups_eq (hk : ∀ n ∈ keys, n ∈ t.names) {groups : List (List Nat)}
    (hgs : (t.groupRows keys).map (t.groupOf keys) = groups) :
    t.aggregateGroups keys columns func = (columns.mapM fun n => do
      let c ← t.need n
      let values ← groups.mapM fun g => aggregate func (g.map fun i => c.values.getD i .null)
      pure (Column.mk n values) : Except FrameError (List Column)) >>= fun out =>
        (ofColumns (keys.map (fun n => ⟨n, (t.groupRows keys).map (t.cell n)⟩) ++ out)).mapError
          fun e => .plan (.construction e) := by
  obtain ⟨keyColumns, hkeys, hcolumns⟩ := keyColumns_ok hk
  have hkeyOut : (keys.zip keyColumns).map (fun p =>
      Column.mk p.1 (groups.map fun g : List Nat => p.2.values.getD (g.headD 0) .null)) =
        keys.map fun n => ⟨n, (t.groupRows keys).map (t.cell n)⟩ := by
    have first : ∀ i ∈ t.groupRows keys, (t.groupOf keys i).headD 0 = i := fun i => headD_groupOf
    rw [← hgs]
    clear hk hkeys hgs
    generalize t.groupRows keys = rows, t.groupOf keys = group at first
    induction hcolumns with
    | nil => rfl
    | @cons n c keys columns hc _ ih =>
      rw [List.zip_cons_cons, List.map_cons, List.map_cons, ih, List.map_map]
      congr 2
      refine List.map_congr_left fun i hi => ?_
      rw [Function.comp, first i hi, cell_of_column? hc]
  have hgroups := groups_ok hk
  rw [hgs] at hgroups
  rw [aggregateGroups, hgroups, hkeys, ← hkeyOut]
  rfl

/-- The rows of an aggregation of groups: for each group its key cells and the aggregates. -/
theorem aggregateGroups_ok (ht : t.Conforms s) (hd : s'.Distinct) {keyFields fields : List Field}
    (hfields : s'.fields = keyFields ++ fields)
    (hk : List.Forall₂ (fun n f => s.field? n = some f) keys keyFields)
    (hf : List.Forall₂ (AggregatedBy s func) columns fields)
    (hno : t.aggregateGroups keys columns func ≠ .error (.overflow "sum")) :
    ∃ out, t.aggregateGroups keys columns func = .ok ⟨out⟩ ∧
      List.Forall₂ (Column.Conforms (t.groupRows keys).length) out s'.fields ∧
      (∀ n ∈ columns, ∀ i ∈ t.groupRows keys, aggregate func ((t.groupOf keys i).map (t.cell n)) =
        .ok (aggregateOf func ((t.groupOf keys i).map (t.cell n)))) ∧
      (Table.mk out).rows = (t.groupRows keys).map fun i => (keys.map fun n => t.cell n i) ++
        columns.map fun n => aggregateOf func ((t.groupOf keys i).map (t.cell n)) := by
  have hnames : ∀ n ∈ keys, n ∈ t.names := fun n hn => by
    obtain ⟨f, -, hf⟩ := exists_of_mem_left hk hn
    obtain ⟨c, hc, -⟩ := ht.column? hf
    exact mem_names_of_column? hc
  generalize hgs : (t.groupRows keys).map (t.groupOf keys) = groups
  have hstep : ∀ {n c}, t.column? n = some c → (do
      let c ← t.need n
      let values ← groups.mapM fun g => aggregate func (g.map fun i => c.values.getD i .null)
      pure (Column.mk n values) : Except FrameError Column) = (do
      let values ← groups.mapM fun g => aggregate func (g.map (t.cell n))
      pure (Column.mk n values)) := by
    intro n c hc
    rw [need, hc]
    simp only [pure_eq_ok, ok_bind, ← cell_of_column? hc]
  have hkeyConf : List.Forall₂ (Column.Conforms groups.length)
      (keys.map fun n => ⟨n, (t.groupRows keys).map (t.cell n)⟩) keyFields := by
    rw [List.forall₂_map_left_iff]
    refine List.Forall₂.imp (fun n f hf => ?_) hk
    obtain ⟨c, -, hc⟩ := ht.column? hf
    refine ⟨(Schema.field?_name hf).symm, hc.isPlain, by simp [← hgs], fun v hv => ?_⟩
    obtain ⟨i, -, rfl⟩ := List.mem_map.1 hv
    exact ht.admits_cell hf i
  rw [aggregateGroups_eq hnames hgs] at hno ⊢
  rcases aggregates_ok ht _ hf hstep with ⟨hmap, hconf, hall⟩ | herr
  · have hout : List.Forall₂ (Column.Conforms groups.length)
        ((keys.map fun n => ⟨n, (t.groupRows keys).map (t.cell n)⟩) ++
          t.aggregatesOver func columns groups) s'.fields := by
      rw [hfields]
      exact List.rel_append (R := Column.Conforms groups.length) hkeyConf hconf
    have hlen : groups.length = (t.groupRows keys).length := by rw [← hgs, List.length_map]
    refine ⟨_, ?_, hlen ▸ hout, fun n hn i hi => ?_, ?_⟩
    · rw [hmap, ok_bind, ofColumns_ok hout hd]
      rfl
    · exact hall n hn _ (hgs ▸ List.mem_map_of_mem hi)
    · rw [rows_eq hout hd.nonempty, hlen]
      refine List.ext_getElem (by simp) fun i hi _ => ?_
      have hi : i < (t.groupRows keys).length := by simpa using hi
      simp [aggregatesOver, ← hgs, Function.comp_def, List.getElem?_eq_getElem hi]
  · rw [herr] at hno
    exact absurd rfl hno

end Table
end LazyQuery
