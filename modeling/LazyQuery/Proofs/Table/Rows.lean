import LazyQuery.Proofs.Table.Columns
import LazyQuery.Proofs.Table.Index
import LazyQuery.Proofs.Table.Layout

/-!
# Operations on rows

Leaving out repetitions, filtering, sorting and joining succeed on tables that conform to their
schemas. The lemmas say which rows the result has, in order, by the numbers of the rows that it was
made from.

* `foldl_firsts` is what taking first appearances comes to: positions by key, or rows kept one after
  the other unless an equal one is there.
* `joinPairs_eq` says which pairs of rows a join finds.
-/

set_option autoImplicit false

namespace LazyQuery

/-! ## Positions -/

theorem zipIdx_map_range {α : Type} (g : Nat → α) (n : Nat) :
    ((List.range n).map g).zipIdx = (List.range n).map fun i => (g i, i) :=
  List.ext_getElem (by simp) fun i _ _ => by simp

/-- The positions of what passes a test. -/
theorem positions_where {α : Type} (g : Nat → α) (test : α → Bool) (n : Nat) :
    (((List.range n).map g).zipIdx.filter fun (x, _) => test x).map (·.2) =
      (List.range n).filter fun i => test (g i) := by
  rw [zipIdx_map_range, List.filter_map, List.map_map]
  exact List.map_id _

/-- Things that are kept one after the other, unless the same is there already, are those at the first
positions of their keys. -/
theorem foldl_firsts {α : Type} (item : Nat → α) (key : Nat → Key) (same : α → α → Bool) {n : Nat}
    (h : ∀ i, i < n → ∀ j, j < n → (same (item i) (item j) = true ↔ key i = key j)) :
    ((List.range n).map item).foldl (fun kept x => if kept.any (same · x) then kept else kept ++ [x])
      [] = (firstPositions [] 0 ((List.range n).map key)).map item := by
  -- What is kept and what is seen stand for the same earlier things.
  have key : ∀ (m i : Nat) (seen : List Key) (kept : List α), i + m = n →
      (∀ j, i ≤ j → j < n → (kept.any (same · (item j)) = true ↔ key j ∈ seen)) →
      ((List.range' i m).map item).foldl
          (fun kept x => if kept.any (same · x) then kept else kept ++ [x]) kept =
        kept ++ (firstPositions seen i ((List.range' i m).map key)).map item := by
    intro m
    induction m with
    | zero => intro i seen kept _ _; simp [firstPositions]
    | succ m ih =>
      intro i seen kept hn hseen
      have hi : i < n := by omega
      rw [List.range'_succ, List.map_cons, List.foldl_cons, List.map_cons, firstPositions]
      by_cases hmem : key i ∈ seen
      · rw [if_pos hmem, if_pos ((hseen i (Nat.le_refl i) hi).2 hmem)]
        exact ih (i + 1) seen kept (by omega) fun j hj => hseen j (by omega)
      · rw [if_neg hmem, if_neg fun h => hmem ((hseen i (Nat.le_refl i) hi).1 h),
          ih (i + 1) (key i :: seen) (kept ++ [item i]) (by omega) fun j hj hjn => ?_,
          List.map_cons, List.append_assoc]
        · rfl
        · rw [List.any_append, Bool.or_eq_true, hseen j (by omega) hjn, List.mem_cons]
          simp only [List.any_cons, List.any_nil, Bool.or_false, h i hi j hjn, eq_comm, or_comm]
  rw [List.range_eq_range', key n 0 [] [] (by omega) (by simp)]
  rfl

/-- The first positions are those before which their keys do not occur. -/
theorem firstPositions_eq_filter (key : Nat → Key) (n : Nat) :
    firstPositions [] 0 ((List.range n).map key) =
      (List.range n).filter fun i => ∀ j, j < i → key j ≠ key i := by
  -- At each position, what was seen are the keys before it.
  have spec : ∀ (m k : Nat) (seen : List Key), (∀ x, x ∈ seen ↔ ∃ j, j < k ∧ key j = x) →
      firstPositions seen k ((List.range' k m).map key) =
        (List.range' k m).filter fun i => ∀ j, j < i → key j ≠ key i := by
    intro m
    induction m with
    | zero => simp [firstPositions]
    | succ m ih =>
      intro k seen hseen
      have hfirst : key k ∈ seen ↔ ¬ ∀ j, j < k → key j ≠ key k := by simp [hseen]
      rw [List.range'_succ, List.map_cons, firstPositions, List.filter_cons]
      by_cases hmem : key k ∈ seen
      · rw [if_pos hmem, if_neg (by simpa using hfirst.1 hmem)]
        refine ih (k + 1) seen fun x => ?_
        rw [Nat.exists_lt_succ_right, ← hseen]
        exact (or_iff_left_of_imp fun h => h ▸ hmem).symm
      · rw [if_neg hmem, if_pos (by simpa using not_not.1 (mt hfirst.2 hmem))]
        refine congrArg (k :: ·) (ih (k + 1) (key k :: seen) fun x => ?_)
        rw [Nat.exists_lt_succ_right, ← hseen, List.mem_cons, or_comm, eq_comm]
  rw [List.range_eq_range']
  exact spec n 0 [] (by simp)

theorem mem_firstPositions {key : Nat → Key} {n i : Nat} :
    i ∈ firstPositions [] 0 ((List.range n).map key) ↔ i < n ∧ ∀ j, j < i → key j ≠ key i := by
  rw [firstPositions_eq_filter, List.mem_filter, List.mem_range, decide_eq_true_iff]

theorem length_firstPositions_le (seen : List Key) (i : Nat) (keys : List Key) :
    (firstPositions seen i keys).length ≤ keys.length := by
  induction keys generalizing seen i with
  | nil => exact Nat.le_refl _
  | cons k rest ih =>
    rw [firstPositions]
    split
    · exact Nat.le_succ_of_le (ih seen (i + 1))
    · exact Nat.succ_le_succ (ih (k :: seen) (i + 1))

/-- All positions are first ones if no key repeats another or one that was seen. -/
theorem length_firstPositions_eq_iff {seen : List Key} {i : Nat} {keys : List Key} :
    (firstPositions seen i keys).length = keys.length ↔ keys.Nodup ∧ ∀ k ∈ keys, k ∉ seen := by
  induction keys generalizing seen i with
  | nil => simp [firstPositions]
  | cons k rest ih =>
    rw [firstPositions, List.nodup_cons, List.forall_mem_cons]
    by_cases hk : k ∈ seen
    · rw [if_pos hk]
      refine iff_of_false (fun h => ?_) fun h => h.2.1 hk
      have hle := length_firstPositions_le seen (i + 1) rest
      rw [h, List.length_cons] at hle
      exact Nat.not_succ_le_self _ hle
    · rw [if_neg hk, List.length_cons, List.length_cons, Nat.succ_inj, ih]
      simp only [List.mem_cons, not_or]
      exact ⟨fun ⟨hn, h⟩ => ⟨⟨fun hmem => (h k hmem).1 rfl, hn⟩, hk, fun x hx => (h x hx).2⟩,
        fun ⟨⟨hk', hn⟩, _, h⟩ => ⟨hn, fun x hx => ⟨fun e => hk' (e ▸ hx), h x hx⟩⟩⟩

namespace Table

variable {t l r : Table} {s s' : Schema} {f : Field} {k : Nat} {columns : List Column}

/-! ## Choosing rows -/

theorem cells_eq {names : List String}
    (h : List.Forall₂ (fun n c => t.column? n = some c) names columns) (i : Nat) :
    cells columns i = names.map fun n => t.cell n i :=
  cells_of_columns h i

theorem rowDigests_ok {names : List String} (hn : ∀ n ∈ names, n ∈ t.names) :
    t.rowDigests names = .ok ((List.range t.rowCount).map fun i =>
      Scalar.keyOf (names.map fun n => t.cell n i)) := by
  obtain ⟨columns, hkeys, hcolumns⟩ := keyColumns_ok hn
  rw [rowDigests, hkeys, ok_bind]
  simp only [cells_eq hcolumns]
  rfl

theorem dropDuplicates_ok (ht : t.Conforms s) (hd : s.Distinct) :
    t.dropDuplicates = .ok (t.take
      (firstPositions [] 0 ((List.range t.rowCount).map fun i => Scalar.keyOf (t.row i)))) := by
  simp only [ht.row_eq hd.nodup]
  rw [dropDuplicates, rowDigests_ok fun n hn => hn, ht.names_eq]
  rfl

theorem filter_ok (mask : List Scalar) (hm : mask.length = t.rowCount) :
    t.filter mask = .ok (t.take ((List.range t.rowCount).filter fun i =>
      (mask.getD i .null).truth? == some true)) := by
  have hmask : mask = (List.range t.rowCount).map fun i => mask.getD i .null := by
    refine List.ext_getElem (by simp [hm]) fun i hi _ => ?_
    simp [List.getElem?_eq_getElem hi]
  have hpos := positions_where (fun i => mask.getD i .null) (fun v => v.truth? == some true) t.rowCount
  rw [← hmask] at hpos
  rw [filter, if_neg (by simp [hm])]
  exact congrArg (fun indices => Except.ok (t.take indices)) hpos

/-! ## Sorting -/

/-- The order of two rows by the cells in some columns; `true` means ascending. -/
def compareBy (t : Table) (keys : List (String × Bool)) (i j : Nat) : Ordering :=
  match keys with
  | [] => .eq
  | (name, ascending) :: rest =>
    let o := Scalar.compare (t.cell name i) (t.cell name j)
    match if ascending then o else o.swap with
    | .eq => t.compareBy rest i j
    | o => o

theorem compareRows_eq {keys : List (String × Bool)}
    (h : List.Forall₂ (fun n c => t.column? n = some c) (keys.map (·.1)) columns) :
    compareRows (columns.zip (keys.map (·.2))) = t.compareBy keys := by
  funext i j
  induction keys generalizing columns with
  | nil =>
    cases h
    rfl
  | cons p rest ih =>
    obtain ⟨name, ascending⟩ := p
    cases h with
    | cons hc hrest =>
      rewrite [List.map_cons, List.zip_cons_cons, compareRows, compareBy, ih hrest,
        cell_of_column? hc, cell_of_column? hc]
      rfl

/-- The numbers of the rows in the order of some columns. -/
def sortOrder (t : Table) (keys : List (String × Bool)) : List Nat :=
  (List.range t.rowCount).mergeSort fun i j => t.compareBy keys i j != .gt

/-- A level table is sorted by taking its rows in order; without rows there is nothing to take. -/
theorem sortValues_eq (ht : ∀ c ∈ t.columns, c.values.length = t.rowCount)
    {keys : List (String × Bool)} (hk : ∀ n ∈ keys.map (·.1), n ∈ t.names) :
    t.sortValues keys = .ok (t.take (t.sortOrder keys)) := by
  rw [sortValues, sortBy, sortOrder]
  by_cases hrows : t.rowCount = 0
  · have htake : t.take [] = t := by simpa [hrows] using take_range ht
    rw [if_pos hrows, hrows, List.range_zero, List.mergeSort_nil, htake]
    rfl
  · obtain ⟨columns, hkeys, hcolumns⟩ := keyColumns_ok hk
    rw [if_neg hrows, hkeys, ← compareRows_eq hcolumns]
    rfl

theorem sortValues_ok (ht : t.Conforms s) (hs : s.fields ≠ []) {keys : List (String × Bool)}
    (hk : ∀ n ∈ keys.map (·.1), n ∈ s.names) :
    ∃ u, t.sortValues keys = .ok u ∧ u.Conforms s ∧
      u.rows = ((List.range t.rowCount).mergeSort fun i j => t.compareBy keys i j != .gt).map t.row :=
  ⟨_, sortValues_eq (fun _ hc => (conforms_of_mem ht hc).choose_spec.2.length) fun n hn => ht.names_eq ▸ hk n hn,
    conforms_take ht hs _, rows_take (ht.columns_ne_nil hs) _⟩

/-! ## Joining -/

/-- The key that a row is matched by; a row with a null among its key cells has none. -/
def keyAt (t : Table) (names : List String) (i : Nat) : Option Key :=
  let row := names.map fun n => t.cell n i
  if row.any Scalar.isNull then none else some (Scalar.keyOf row)

theorem rowKeys_ok {names : List String} (hn : ∀ n ∈ names, n ∈ t.names) :
    t.rowKeys names = .ok ((List.range t.rowCount).map (t.keyAt names)) := by
  obtain ⟨columns, hkeys, hcolumns⟩ := keyColumns_ok hn
  rw [rowKeys, hkeys, ok_bind]
  simp only [cells_eq hcolumns]
  rfl

/-- Do a left and a right row match? -/
def areMatched (l r : Table) (leftOn rightOn : List String) (i j : Nat) : Bool :=
  (l.keyAt leftOn i).isSome && r.keyAt rightOn j == l.keyAt leftOn i

/-- The pairs of row numbers that a join finds. -/
def pairsOf (how : JoinType) (n m : Nat) (isMatch : Nat → Nat → Bool) : List (Nat × Option Nat) :=
  (List.range n).flatMap fun i =>
    match (List.range m).filter (isMatch i) with
    | [] => if how = .left then [(i, none)] else []
    | js => js.map fun j => (i, some j)

theorem mem_pairsOf {how : JoinType} {n m i j : Nat} {isMatch : Nat → Nat → Bool} :
    (i, some j) ∈ pairsOf how n m isMatch ↔ i < n ∧ j < m ∧ isMatch i j = true := by
  have found : j ∈ (List.range m).filter (isMatch i) ↔ j < m ∧ isMatch i j = true := by
    rw [List.mem_filter, List.mem_range]
  rw [pairsOf, List.mem_flatMap, ← found]
  constructor
  · rintro ⟨i', hi, h⟩
    split at h
    · split at h
      · cases List.mem_singleton.1 h
      · cases h
    · obtain ⟨j', hj, he⟩ := List.mem_map.1 h
      cases he
      exact ⟨List.mem_range.1 hi, hj⟩
  · rintro ⟨hi, hj⟩
    refine ⟨i, List.mem_range.2 hi, ?_⟩
    split
    · rename_i hnone
      rw [hnone] at hj
      cases hj
    · exact List.mem_map_of_mem hj

theorem joinPairs_eq (how : JoinType) (leftOn rightOn : List String) :
    joinPairs how ((List.range l.rowCount).map (l.keyAt leftOn))
        ((List.range r.rowCount).map (r.keyAt rightOn)) =
      pairsOf how l.rowCount r.rowCount (l.areMatched r leftOn rightOn) := by
  have found : ∀ i, partners ((List.range r.rowCount).map (r.keyAt rightOn)) (l.keyAt leftOn i) =
      (List.range r.rowCount).filter (l.areMatched r leftOn rightOn i) := fun i => by
    have hmatch : l.areMatched r leftOn rightOn i =
        fun j => (l.keyAt leftOn i).isSome && r.keyAt rightOn j == l.keyAt leftOn i := rfl
    rw [hmatch]
    cases l.keyAt leftOn i with
    | none => simp [partners]
    | some k => exact (positions_where _ (· == some k) _).trans (by simp)
  rw [joinPairs_eq_loop, pairsOf, zipIdx_map_range, List.flatMap_map]
  congr 1
  funext i
  dsimp only
  rewrite [found]
  cases (List.range r.rowCount).filter (l.areMatched r leftOn rightOn i) <;> rfl

/-- The cell of an optional row; null without a row. -/
def cell? (t : Table) (name : String) (i : Option Nat) : Scalar := i.elim .null (t.cell name)

theorem optionalCell_eq {c : Column} {name : String} (h : t.column? name = some c) (i : Option Nat) :
    optionalCell c i = t.cell? name i := by
  cases i with
  | none => rfl
  | some i => exact (cell_of_column? h i).symm

/-- The columns of a join that come from one side, each cell being had from a pair of rows. -/
theorem mapM_joined {α : Type} {sources : List (String × String)} (h : ∀ p ∈ sources, p.1 ∈ t.names)
    (pairs : List α) {cellIn : Column → α → Scalar} {cellOf : String → α → Scalar}
    (hcell : ∀ {name c}, t.column? name = some c → cellIn c = cellOf name) {e : String → FrameError} :
    (sources.mapM fun (source, out) =>
        match t.column? source with
        | some c => pure (Column.mk out (pairs.map (cellIn c)))
        | none => throw (e source) : Except FrameError (List Column)) =
      .ok (sources.map fun p => ⟨p.2, pairs.map (cellOf p.1)⟩) := by
  refine mapM_eq_map fun p hp => ?_
  obtain ⟨c, hc⟩ := exists_column? (h p hp)
  dsimp only
  rw [hc, ← hcell hc]
  rfl

/-- The columns of a join, each with the cell that it has for a pair of rows. -/
def joinedColumns (l r : Table) (layout : JoinLayout) : List (String × (Nat × Option Nat → Scalar)) :=
  layout.left.map (fun p => (p.2, fun q => l.cell p.1 q.1)) ++
    layout.right.map fun p => (p.2, fun q => r.cell? p.1 q.2)

/-- **A join is put together from the pairs that it finds**, whatever keys and columns it is told of. -/
theorem join_eq_ofColumns (how : JoinType) {leftOn rightOn : List String} {layout : JoinLayout}
    (hne : leftOn ≠ []) (hlen : leftOn.length = rightOn.length) (hl : ∀ n ∈ leftOn, n ∈ l.names)
    (hr : ∀ n ∈ rightOn, n ∈ r.names) (hleft : ∀ p ∈ layout.left, p.1 ∈ l.names)
    (hright : ∀ p ∈ layout.right, p.1 ∈ r.names) {pairs : List (Nat × Option Nat)}
    (hpairs : pairs = pairsOf how l.rowCount r.rowCount (l.areMatched r leftOn rightOn)) :
    l.join r leftOn rightOn how layout =
      (ofColumns ((joinedColumns l r layout).map fun c => ⟨c.1, pairs.map c.2⟩)).mapError
        fun e => .plan (.construction e) := by
  have hkeys : ¬(leftOn.length != rightOn.length || leftOn.isEmpty) = true := by
    simp [hlen, List.isEmpty_iff, hne]
  rw [← joinPairs_eq how leftOn rightOn] at hpairs
  rw [join, if_neg hkeys, rowKeys_ok hl, rowKeys_ok hr]
  change (do
    let leftOut ← layout.left.mapM _
    let rightOut ← layout.right.mapM _
    (ofColumns (leftOut ++ rightOut)).mapError _ : Except FrameError Table) = _
  rw [← hpairs, joinedColumns, List.map_append, List.map_map, List.map_map]
  have leftOut := mapM_joined hleft pairs (fun hc => funext fun p => (cell_of_column? hc p.1).symm)
    (e := fun source => .schema (.missingLeftColumn source))
  have rightOut := mapM_joined hright pairs (fun hc => funext fun p => optionalCell_eq hc p.2)
    (e := fun source => .schema (.missingRightColumn source))
  exact (bind_of_ok leftOut _).trans (bind_of_ok rightOut _)

/-- The columns of a join that come from one side conform to the fields that are named after theirs. -/
theorem joined_conforms {α : Type} {sources : List (String × String)} {fields : List Field}
    (hf : List.Forall₂ (fun p f => ∃ g, s.field? p.1 = some g ∧ f.name = p.2 ∧ f.type = g.type)
      sources fields) (hplain : ∀ {name g}, s.field? name = some g → g.type.isPlain = true)
    (pairs : List α) (cellOf : String → α → Scalar)
    (hadm : ∀ {name g}, s.field? name = some g → ∀ p, g.type.admits (cellOf name p) = true) :
    List.Forall₂ (Column.Conforms pairs.length)
      (sources.map fun p => ⟨p.2, pairs.map (cellOf p.1)⟩) fields := by
  rw [List.forall₂_map_left_iff]
  refine hf.imp fun p f hpf => ?_
  obtain ⟨g, hg, hname, htype⟩ := hpf
  refine ⟨hname.symm, htype ▸ hplain hg, List.length_map _, fun v hv => ?_⟩
  obtain ⟨q, -, rfl⟩ := List.mem_map.1 hv
  exact htype ▸ hadm hg q

/-- What is known of a layout: that the keys can be joined, and where the columns come from. -/
theorem layout_fields {leftOn rightOn : List String} {outer : Bool} {layout : JoinLayout}
    (h : JoinLayout.make s s' leftOn rightOn outer = .ok layout) (hs : s.names.Nodup)
    (hs' : s'.names.Nodup) :
    leftOn ≠ [] ∧ leftOn.length = rightOn.length ∧ (∀ n ∈ leftOn, n ∈ s.names) ∧
      (∀ n ∈ rightOn, n ∈ s'.names) ∧ layout.schema.names.Nodup ∧
        ∃ left right, layout.schema.fields = left ++ right ∧
          List.Forall₂ (fun p f => ∃ g, s.field? p.1 = some g ∧ f = { g with name := p.2 })
            layout.left left ∧
          List.Forall₂ (fun p f => ∃ g, s'.field? p.1 = some g ∧
            f = { g with name := p.2, nullable := g.nullable || outer }) layout.right right := by
  obtain ⟨hne, hlen, hl, hr, hnodup, -⟩ := JoinLayout.make_eq_ok.1 h
  exact ⟨hne, hlen, hl, hr, hnodup, JoinLayout.fields_of_make h hs hs'⟩

/-- Where the columns of a join come from, as far as names and types go. -/
theorem layout_spec {leftOn rightOn : List String} {outer : Bool} {layout : JoinLayout}
    (h : JoinLayout.make s s' leftOn rightOn outer = .ok layout) (hs : s.names.Nodup)
    (hs' : s'.names.Nodup) :
    leftOn ≠ [] ∧ leftOn.length = rightOn.length ∧ (∀ n ∈ leftOn, n ∈ s.names) ∧
      (∀ n ∈ rightOn, n ∈ s'.names) ∧ layout.schema.names.Nodup ∧
        ∃ left right, layout.schema.fields = left ++ right ∧
          List.Forall₂ (fun p f => ∃ g, s.field? p.1 = some g ∧ f.name = p.2 ∧ f.type = g.type)
            layout.left left ∧
          List.Forall₂ (fun p f => ∃ g, s'.field? p.1 = some g ∧ f.name = p.2 ∧ f.type = g.type)
            layout.right right := by
  obtain ⟨hne, hlen, hl, hr, hnodup, left, right, hfields, hleft, hright⟩ := layout_fields h hs hs'
  refine ⟨hne, hlen, hl, hr, hnodup, left, right, hfields, hleft.imp ?_, hright.imp ?_⟩ <;>
    exact fun p f ⟨g, hg, hf⟩ => ⟨g, hg, by rw [hf], by rw [hf]⟩

theorem join_ok (how : JoinType) (hl : l.Conforms s) (hr : r.Conforms s') (hs : s.Distinct) (hs' : s'.Distinct)
    {leftOn rightOn : List String} {outer : Bool} {layout : JoinLayout}
    (h : JoinLayout.make s s' leftOn rightOn outer = .ok layout)
    (hne : layout.schema.fields ≠ []) {pairs : List (Nat × Option Nat)}
    (hpairs : pairs = pairsOf how l.rowCount r.rowCount (l.areMatched r leftOn rightOn)) :
    ∃ columns, l.join r leftOn rightOn how layout = .ok ⟨columns⟩ ∧
      List.Forall₂ (Column.Conforms pairs.length) columns layout.schema.fields ∧
        (Table.mk columns).rows = pairs.map fun p =>
          layout.left.map (fun q => l.cell q.1 p.1) ++ layout.right.map fun q => r.cell? q.1 p.2 := by
  obtain ⟨hon, hlen, hlOn, hrOn, hnodup, left, right, hfields, hleft, hright⟩ :=
    layout_spec h hs.nodup hs'.nodup
  have plain {t : Table} {s : Schema} (ht : t.Conforms s) {name : String} {g : Field}
      (hg : s.field? name = some g) : g.type.isPlain = true := by
    obtain ⟨c, -, hc⟩ := ht.column? hg
    exact hc.isPlain
  have known {t : Table} {s : Schema} (ht : t.Conforms s) {sources : List (String × String)}
      {fields : List Field}
      (hf : List.Forall₂ (fun p f => ∃ g, s.field? p.1 = some g ∧ f.name = p.2 ∧ f.type = g.type)
        sources fields) : ∀ p ∈ sources, p.1 ∈ t.names := fun p hp => by
    obtain ⟨f, -, g, hg, -⟩ := exists_of_mem_left hf hp
    rw [ht.names_eq, ← Schema.field?_name hg]
    exact List.mem_map_of_mem (Schema.mem_of_field? hg)
  have hconf : List.Forall₂ (Column.Conforms pairs.length)
      ((joinedColumns l r layout).map fun c => ⟨c.1, pairs.map c.2⟩) layout.schema.fields := by
    rw [hfields, joinedColumns, List.map_append, List.map_map, List.map_map]
    exact List.rel_append (R := Column.Conforms pairs.length)
      (joined_conforms hleft (plain hl) pairs (fun n p => l.cell n p.1) fun hg p =>
        hl.admits_cell hg p.1)
      (joined_conforms hright (plain hr) pairs (fun n p => r.cell? n p.2) fun hg p => by
        cases p.2 with
        | none => exact DataType.admits_null _
        | some j => exact hr.admits_cell hg j)
  refine ⟨_, ?_, hconf, ?_⟩
  · rw [join_eq_ofColumns how hon hlen (fun n hn => hl.names_eq ▸ hlOn n hn)
      (fun n hn => hr.names_eq ▸ hrOn n hn) (known hl hleft) (known hr hright) hpairs,
      ofColumns_ok hconf ⟨hne, hnodup⟩]
    rfl
  · rw [rows_eq hconf hne]
    refine List.ext_getElem (by simp) fun i hi _ => ?_
    have hi : i < pairs.length := by simpa using hi
    simp [joinedColumns, Function.comp_def, List.getElem?_eq_getElem hi]

end Table
end LazyQuery
