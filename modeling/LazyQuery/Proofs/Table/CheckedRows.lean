import LazyQuery.Proofs.Table.Cells
import LazyQuery.Proofs.Table.Slots
import LazyQuery.Proofs.Table.Sorters

/-!
# Rows of tables, checked

The operations that choose, sort and pair rows once more, with every row number and every place of a column
looked at before it is read. Where rows are compared, the cells that a comparison could read are read
beforehand. Of level tables nothing is read that is not there: each operation is mirrored, but for a sort that
gives up, or does not sort, where a cell straddles two others.
-/

set_option autoImplicit false

namespace LazyQuery.Checked

variable {t l r : Table} {keys : List String}

/-! ## Choosing rows -/

theorem length_rowDigests {digests : List Key} (h : t.rowDigests keys = .ok digests) :
    digests.length = t.rowCount := by
  obtain ⟨_, -, h⟩ := bind_eq_ok.1 h
  obtain rfl := Except.ok.inj h
  rw [List.length_map, List.length_range]

/-- The table without rows that repeat an earlier one. -/
def dropDuplicates (t : Table) : Checked Table := do
  let digests ← rowDigests t t.names
  take t (firstPositions [] 0 digests)

theorem dropDuplicates_mirrors (ht : t.Level) : Mirrors Eq (dropDuplicates t) t.dropDuplicates := by
  refine (rowDigests_mirrors ht t.names).bind_eq fun digests hdigests => mirrors_eq_iff.2 ?_
  have hlength := length_rowDigests (mapError_eq_ok.1 hdigests)
  refine take_eq ht fun i hi => ?_
  have := lt_of_mem_firstPositions hi
  omega

/-- The rows whose mask is true. -/
def filter (t : Table) (mask : List Scalar) : Checked Table :=
  if mask.length ≠ t.rowCount then throw (.refused (.length t.rowCount mask.length))
  else take t ((mask.zipIdx.filter fun (m, _) => m.truth? == some true).map (·.2))

theorem filter_mirrors (ht : t.Level) (mask : List Scalar) :
    Mirrors Eq (filter t mask) (t.filter mask) := by
  refine Mirrors.ite (fun _ => mirrors_error _) fun hlength => mirrors_eq_iff.2 (take_eq ht fun i hi => ?_)
  obtain ⟨p, hp, rfl⟩ := List.mem_map.1 hi
  exact not_not.1 hlength ▸ List.snd_lt_of_mem_zipIdx (List.mem_filter.1 hp).1

/-- The first `n` rows. -/
def limit (t : Table) (n : Nat) : Checked Table := take t (List.range (min n t.rowCount))

theorem limit_eq (ht : t.Level) (n : Nat) : limit t n = .ok (t.limit n) :=
  take_eq ht fun _ hi => Nat.lt_of_lt_of_le (List.mem_range.1 hi) (Nat.min_le_right _ _)

/-- The table with a column replaced, or appended if there is none of its name. -/
def assignColumn (t : Table) (name : String) (values : List Scalar) : Checked Table :=
  if values.length ≠ t.rowCount ∧ ¬t.columns.isEmpty then
    throw (.refused (.length t.rowCount values.length))
  else
    match t.columns.findIdx? (·.name == name) with
    | some p => do
      let c ← place t.columns p
      pure ⟨t.columns.set p { c with values }⟩
    | none => pure ⟨t.columns ++ [⟨name, values⟩]⟩

theorem assignColumn_mirrors (t : Table) (name : String) (values : List Scalar) :
    Mirrors Eq (assignColumn t name values) (t.assignColumn name values) := by
  refine Mirrors.ite (fun _ => mirrors_error _) fun _ => ?_
  cases hp : t.columns.findIdx? (·.name == name) with
  | none => exact mirrors_ok rfl
  | some p =>
    obtain ⟨hlt, hname, -⟩ := List.findIdx?_eq_some_iff_getElem.1 hp
    dsimp only
    rw [place_eq_ok.2 (List.getElem?_eq_getElem hlt)]
    refine mirrors_ok ?_
    rw [eq_of_beq hname]

/-! ## Sorting -/

/-- The order of two rows by their key cells; `true` means ascending. -/
def compareCells : List Bool → List Scalar → List Scalar → Ordering
  | ascending :: rest, a :: as, b :: bs =>
    let o := Scalar.compare a b
    match if ascending then o else o.swap with
    | .eq => compareCells rest as bs
    | o => o
  | _, _, _ => .eq

theorem compareCells_eq (directions : List Bool) (columns : List Column) (i j : Nat) :
    compareCells directions (Table.cells columns i) (Table.cells columns j) =
      Table.compareRows (columns.zip directions) i j := by
  induction columns generalizing directions with
  | nil => cases directions <;> rfl
  | cons c rest ih =>
    cases directions with
    | nil => rfl
    | cons ascending directions =>
      rewrite [List.zip_cons_cons, Table.compareRows, ← ih directions]
      rfl

/-- What is sorted by tags that it carries is sorted by the tags that it has. -/
theorem mergeSort_tagged {α β : Type} (tag : α → β) (le : β → β → Bool) (xs : List α) :
    ((xs.map fun x => (x, tag x)).mergeSort fun a b => le a.2 b.2).map (·.1) =
      xs.mergeSort fun x y => le (tag x) (tag y) := by
  rw [List.map_mergeSort (s := fun x y => le (tag x) (tag y)), List.map_map]
  · exact congrArg (List.mergeSort · _) (List.map_id xs)
  · intro a ha b hb
    obtain ⟨x, -, rfl⟩ := List.mem_map.1 ha
    obtain ⟨y, -, rfl⟩ := List.mem_map.1 hb
    rfl

/-- What a sort yields. -/
def sorted {α : Type} (sorter : Sorter) (cmp : α → α → Ordering) (xs : List α) : Checked (List α) :=
  match sorter.sort cmp xs with
  | some ys => pure ys
  | none => throw .gaveUp

theorem sorted_inRange {α : Type} (sorter : Sorter) (cmp : α → α → Ordering) (xs : List α) :
    InRange (fun ys => ys.Perm xs) (sorted sorter cmp xs) := by
  rw [sorted]
  cases hs : sorter.sort cmp xs with
  | some ys => exact sorter.perm hs
  | none => trivial

theorem sorted_eq {α : Type} {cmp : α → α → Ordering} {xs : List α} (h : Sorts cmp xs)
    (sorter : Sorter) : sorted sorter cmp xs = .ok (xs.mergeSort fun a b => cmp a b != .gt) := by
  rw [sorted, sorter.stable h]
  rfl

/-- The rows sorted by some columns. -/
def sortValues (sorter : Sorter) (t : Table) (keys : List (String × Bool)) : Checked Table :=
  if t.rowCount = 0 then pure t
  else do
    let rows ← eachRow t (keys.map (·.1)) Prod.mk
    let rows ← sorted sorter (fun a b => compareCells (keys.map (·.2)) a.2 b.2) rows
    take t (rows.map (·.1))

theorem sortValues_inRange (ht : t.Valid) (sorter : Sorter) (keys : List (String × Bool)) :
    InRange Table.Valid (sortValues sorter t keys) := by
  rw [sortValues]
  split
  · exact ht
  · have hrows : InRange (fun rows => ∀ r ∈ rows, r.1 < t.rowCount) (eachRow t (keys.map (·.1)) Prod.mk) :=
      (eachRow_mirrors ht.level _ Prod.mk).inRange fun rows columns _ hrows r hr => by
        rw [hrows] at hr
        obtain ⟨i, hi, rfl⟩ := List.mem_map.1 hr
        exact List.mem_range.1 hi
    refine hrows.bind fun rows hlt => (sorted_inRange sorter _ rows).bind fun sorted hperm => ?_
    rw [take_eq ht.level fun i hi => ?_]
    · exact ht.take _
    · obtain ⟨r, hr, rfl⟩ := List.mem_map.1 hi
      exact hlt r (hperm.mem_iff.1 hr)

/-- A sort by columns in which nothing straddles does not give up, and sorts. -/
theorem sortValues_mirrors (ht : t.Level) (sorter : Sorter) {keys : List (String × Bool)}
    (h : ∀ k ∈ keys, ∀ c, t.column? k.1 = some c → ¬ Straddled c.values) :
    Mirrors Eq (sortValues sorter t keys) (t.sortValues keys) := by
  rw [sortValues, Table.sortValues, Table.sortBy]
  by_cases hrows : t.rowCount = 0
  · rw [if_pos hrows, if_pos hrows]
    exact mirrors_ok rfl
  · rw [if_neg hrows, if_neg hrows, mapError_bind]
    refine (eachRow_mirrors ht _ Prod.mk).bind fun rows columns hcolumns hrows => mirrors_eq_iff.2 ?_
    have hcolumns := Table.keyColumns_eq_ok.1 (mapError_eq_ok.1 hcolumns)
    have hsorts : Sorts (fun a b => compareCells (keys.map (·.2)) a.2 b.2) rows := by
      rw [hrows]
      refine sorts_of_rows Prod.fst (columns.zip (keys.map (·.2))) (fun x hx y hy => ?_) fun k hk => ?_
      · obtain ⟨i, -, rfl⟩ := List.mem_map.1 hx
        obtain ⟨j, -, rfl⟩ := List.mem_map.1 hy
        exact compareCells_eq _ columns i j
      · obtain ⟨name, hname, hc⟩ := exists_of_mem_right hcolumns (List.of_mem_zip hk).1
        obtain ⟨key, hkey, rfl⟩ := List.mem_map.1 hname
        refine ⟨h key hkey _ hc, fun x hx => ?_⟩
        obtain ⟨i, hi, rfl⟩ := List.mem_map.1 hx
        exact ht _ (List.mem_of_find?_eq_some hc) ▸ List.mem_range.1 hi
    rw [sorted_eq hsorts, ok_bind, hrows,
      mergeSort_tagged (Table.cells columns) fun a b => compareCells (keys.map (·.2)) a b != .gt]
    simp only [compareCells_eq]
    exact take_eq ht fun i hi => List.mem_range.1 (List.mem_mergeSort.1 hi)

/-! ## Joining -/

/-- The cell of an optional row; null without a row. -/
def optionalCell (c : Column) : Option Nat → Checked Scalar
  | some j => place c.values j
  | none => pure .null

theorem optionalCell_eq {c : Column} {i : Option Nat} (h : ∀ j, i = some j → j < c.values.length) :
    optionalCell c i = .ok (Table.optionalCell c i) := by
  cases i with
  | none => rfl
  | some j => exact place_eq (h j rfl) .null

/-- The columns that a join takes from one table: for each of the sources the cells of its column. -/
def gather {α : Type} (t : Table) (sources : List (String × String)) (missing : String → FrameError)
    (xs : List α) (cell : Column → α → Checked Scalar) : Checked (List Column) :=
  sources.mapM fun (source, out) =>
    match t.column? source with
    | some c => do
      let values ← xs.mapM (cell c)
      pure (Column.mk out values)
    | none => throw (.refused (missing source))

theorem gather_mirrors {α : Type} {sources : List (String × String)} {missing : String → FrameError}
    {xs : List α} {cell : Column → α → Checked Scalar} (cell' : Column → α → Scalar)
    (h : ∀ c ∈ t.columns, ∀ x ∈ xs, cell c x = .ok (cell' c x)) :
    Mirrors Eq (gather t sources missing xs cell) (sources.mapM fun (source, out) =>
      match t.column? source with
      | some c => pure (Column.mk out (xs.map (cell' c)))
      | none => throw (missing source)) := by
  refine Mirrors.mapM_eq fun (source, out) _ => ?_
  dsimp only
  cases hc : t.column? source with
  | none => exact mirrors_error _
  | some c =>
    dsimp only
    rw [mapM_eq_map (h c (List.mem_of_find?_eq_some hc))]
    exact mirrors_ok rfl

/-- The join of two tables on paired keys, laid out as given. -/
def join (left right : Table) (leftOn rightOn : List String) (how : JoinType) (layout : JoinLayout) :
    Checked Table :=
  if leftOn.length != rightOn.length || leftOn.isEmpty then
    throw (.refused (.schema (.unpairedJoinKeys leftOn.length rightOn.length)))
  else do
    let leftKeys ← rowKeys left leftOn
    let rightKeys ← rowKeys right rightOn
    let pairs := Table.joinPairs how leftKeys rightKeys
    let leftOut ← gather left layout.left (fun source => .schema (.missingLeftColumn source)) pairs
      fun c p => place c.values p.1
    let rightOut ← gather right layout.right (fun source => .schema (.missingRightColumn source)) pairs
      fun c p => optionalCell c p.2
    plain ((Table.ofColumns (leftOut ++ rightOut)).mapError fun e => .plan (.construction e))

theorem join_mirrors (hl : l.Level) (hr : r.Level) (leftOn rightOn : List String) (how : JoinType)
    (layout : JoinLayout) :
    Mirrors Eq (join l r leftOn rightOn how layout) (l.join r leftOn rightOn how layout) := by
  refine Mirrors.ite (fun _ => mirrors_error _) fun _ => ?_
  refine (rowKeys_mirrors hl leftOn).bind_eq fun leftKeys hleft => ?_
  refine (rowKeys_mirrors hr rightOn).bind_eq fun rightKeys hright => ?_
  have hpairs : ∀ p ∈ Table.joinPairs how leftKeys rightKeys,
      p.1 < l.rowCount ∧ ∀ j, p.2 = some j → j < r.rowCount := fun p hp => by
    obtain ⟨hi, hj, -⟩ := Table.mem_joinPairs hp
    rw [← Table.length_rowKeys (mapError_eq_ok.1 hleft), ← Table.length_rowKeys (mapError_eq_ok.1 hright)]
    exact ⟨hi, hj⟩
  refine Mirrors.bind_eq (gather_mirrors (fun c (p : Nat × Option Nat) => c.values.getD p.1 .null)
    fun c hc p hp => place_eq (hl c hc ▸ (hpairs p hp).1) _) fun leftOut _ => ?_
  refine Mirrors.bind_eq (gather_mirrors (fun c (p : Nat × Option Nat) => Table.optionalCell c p.2)
    fun c hc p hp => ?_) fun rightOut _ => mirrors_plain _
  exact optionalCell_eq fun j hj => hr c hc ▸ (hpairs p hp).2 j hj

end LazyQuery.Checked
