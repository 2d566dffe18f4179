import LazyQuery.Proofs.Table.Level
import LazyQuery.Proofs.Table.Rows

/-!
# Joins as nested loops

What a join is, said without keys being looked up: for each left row in order, all right rows in order
whose key cells match its own (`Table.nestedLoop`). A join in memory yields just these rows
(`Table.join_eq_nestedLoop`), for whatever keys and layout of columns that the two tables have.

* `ofRows_map` is why it does not matter whether a table is put together from rows or from columns.
-/

set_option autoImplicit false

namespace LazyQuery

/-- The names of the columns of a join, in order. -/
def JoinLayout.outputs (layout : JoinLayout) : List String :=
  layout.left.map (·.2) ++ layout.right.map (·.2)

namespace Table

/-! ## Tables put together row by row -/

theorem checkRows_ok {width : Nat} {rows : List (List Scalar)} (h : ∀ row ∈ rows, row.length = width)
    (i : Nat) : checkRows width i rows = .ok () := by
  induction rows generalizing i with
  | nil => rfl
  | cons row rest ih =>
    rw [List.forall_mem_cons] at h
    rw [checkRows, if_neg (not_not_intro h.1)]
    exact ih h.2 (i + 1)

section

variable {α : Type} (xs : List α) (columns : List (String × (α → Scalar)))

/-- A table with a row for each of some things is one with a column for each of their features. -/
theorem ofRows_map : ofRows (columns.map (·.1)) (xs.map fun x => columns.map (·.2 x)) =
    ofColumns (columns.map fun c => ⟨c.1, xs.map c.2⟩) := by
  have hrows : ∀ row ∈ xs.map fun x => columns.map (·.2 x), row.length = (columns.map (·.1)).length :=
    fun row hrow => by
      obtain ⟨x, -, rfl⟩ := List.mem_map.1 hrow
      simp
  rw [ofRows, checkRows_ok hrows, ok_bind]
  refine congrArg ofColumns (List.ext_getElem (by simp) fun i hi _ => ?_)
  have hi : i < columns.length := by simpa using hi
  simp [hi]

/-- The rows of a table with a column for each of some features. -/
theorem rows_map (h : columns ≠ []) :
    (Table.mk (columns.map fun c => ⟨c.1, xs.map c.2⟩)).rows = xs.map fun x => columns.map (·.2 x) := by
  obtain ⟨c, rest, rfl⟩ := List.exists_cons_of_ne_nil h
  have hrows : (Table.mk ((c :: rest).map fun c => ⟨c.1, xs.map c.2⟩)).rowCount = xs.length :=
    List.length_map _
  rw [rows, hrows]
  refine List.ext_getElem (by simp) fun i hi _ => ?_
  have hi : i < xs.length := by simpa using hi
  simp [row, hi]

end

/-! ## The loop -/

/-- Do the key cells of a left and a right row match: none of them is missing, and they have one key? -/
def keysMatch (l r : Table) (leftOn rightOn : List String) (i j : Nat) : Bool :=
  let left := leftOn.map fun n => l.cell n i
  let right := rightOn.map fun n => r.cell n j
  !left.any Scalar.isNull && !right.any Scalar.isNull && Scalar.keyOf left == Scalar.keyOf right

/-- The rows that a left row becomes: one for each right row that it matches. A left join keeps a row that
matches none, with nulls on the right. -/
def joinedRows (how : JoinType) (l r : Table) (leftOn rightOn : List String) (layout : JoinLayout)
    (i : Nat) : List (List Scalar) :=
  let left := layout.left.map fun p => l.cell p.1 i
  let matched := (List.range r.rowCount).filter (keysMatch l r leftOn rightOn i)
  if how = .left ∧ matched = [] then [left ++ layout.right.map fun _ => .null]
  else matched.map fun j => left ++ layout.right.map fun p => r.cell p.1 j

/-- The rows of a join, left row by left row. -/
def nestedLoop (how : JoinType) (l r : Table) (leftOn rightOn : List String) (layout : JoinLayout) :
    List (List Scalar) :=
  (List.range l.rowCount).flatMap (joinedRows how l r leftOn rightOn layout)

variable {l r : Table} {leftOn rightOn : List String} {layout : JoinLayout}

theorem areMatched_eq_keysMatch (i j : Nat) :
    l.areMatched r leftOn rightOn i j = keysMatch l r leftOn rightOn i j := by
  rw [areMatched, keyAt, keyAt, keysMatch]
  cases (leftOn.map fun n => l.cell n i).any Scalar.isNull <;>
    cases (rightOn.map fun n => r.cell n j).any Scalar.isNull <;> try rfl
  exact Bool.beq_comm

theorem names_joinedColumns (l r : Table) (layout : JoinLayout) :
    (joinedColumns l r layout).map (·.1) = layout.outputs := by
  simp [joinedColumns, JoinLayout.outputs, Function.comp_def]

/-- The loop goes through the pairs that a join finds. -/
theorem nestedLoop_eq (how : JoinType) : nestedLoop how l r leftOn rightOn layout =
    (pairsOf how l.rowCount r.rowCount (l.areMatched r leftOn rightOn)).map fun q =>
      (joinedColumns l r layout).map (·.2 q) := by
  have hmatch : l.areMatched r leftOn rightOn = keysMatch l r leftOn rightOn :=
    funext fun i => funext fun j => areMatched_eq_keysMatch i j
  rw [nestedLoop, pairsOf, List.map_flatMap, hmatch]
  refine List.flatMap_congr fun i _ => ?_
  rw [joinedRows]
  cases (List.range r.rowCount).filter (keysMatch l r leftOn rightOn i) with
  | nil => cases how <;> simp [joinedColumns, cell?, Function.comp_def]
  | cons j js => simp [joinedColumns, cell?, Function.comp_def]

/-- **A join is a nested loop**: it yields the table that has the rows of the loop, in order, under the
names of the layout, and is refused just if two of these names are the same. -/
theorem join_eq_nestedLoop (how : JoinType) (l r : Table) (layout : JoinLayout) (hne : leftOn ≠ [])
    (hlen : leftOn.length = rightOn.length) (hl : ∀ n ∈ leftOn, n ∈ l.names)
    (hr : ∀ n ∈ rightOn, n ∈ r.names) (hleft : ∀ p ∈ layout.left, p.1 ∈ l.names)
    (hright : ∀ p ∈ layout.right, p.1 ∈ r.names) :
    l.join r leftOn rightOn how layout =
        (ofRows layout.outputs (nestedLoop how l r leftOn rightOn layout)).mapError
          (fun e => .plan (.construction e)) ∧
      (layout.outputs.Nodup → ∃ u, l.join r leftOn rightOn how layout = .ok u ∧ u.Valid ∧
        u.names = layout.outputs ∧
          (layout.outputs ≠ [] → u.rows = nestedLoop how l r leftOn rightOn layout)) := by
  have hjoin := join_eq_ofColumns how hne hlen hl hr hleft hright rfl
  rw [hjoin, nestedLoop_eq, ← names_joinedColumns l r layout, ofRows_map]
  refine ⟨rfl, fun hnodup => ?_⟩
  generalize pairsOf how l.rowCount r.rowCount (l.areMatched r leftOn rightOn) = pairs
  have hnames : (Table.mk ((joinedColumns l r layout).map fun c => ⟨c.1, pairs.map c.2⟩)).names =
      (joinedColumns l r layout).map (·.1) := by
    rw [names, List.map_map]
    rfl
  have hvalid : (Table.mk ((joinedColumns l r layout).map fun c => ⟨c.1, pairs.map c.2⟩)).Valid := by
    refine ⟨level_of_lengths pairs.length fun c hc => ?_, hnames ▸ hnodup⟩
    obtain ⟨column, -, rfl⟩ := List.mem_map.1 hc
    exact List.length_map _
  refine ⟨_, mapError_eq_ok.2 (ofColumns_eq_ok.2 ⟨rfl, hvalid⟩), hvalid, hnames, fun hcolumns => ?_⟩
  exact rows_map pairs _ fun he => hcolumns (congrArg (List.map _) he)

/-- A left join of keys of which one is missing and one is found twice, once as a truth value. -/
theorem join_eq_nestedLoop_missingKeys :
    let l : Table := ⟨[⟨"k", [.int 1, .null, .int 3, .int 1]⟩]⟩
    let r : Table := ⟨[⟨"k", [.bool true, .int 1, .null]⟩, ⟨"v", [.text "a", .text "b", .text "c"]⟩]⟩
    ∃ u, l.join r ["k"] ["k"] .left ⟨[("k", "k")], [("v", "v")], default⟩ = .ok u ∧
      u.rows = [[.int 1, .text "a"], [.int 1, .text "b"], [.null, .null], [.int 3, .null],
        [.int 1, .text "a"], [.int 1, .text "b"]] := by
  intro l r
  obtain ⟨u, hu, -, -, hrows⟩ := (join_eq_nestedLoop .left l r ⟨[("k", "k")], [("v", "v")], default⟩
    (List.cons_ne_nil "k" []) rfl (by decide) (by decide) (by decide) (by decide)).2 (by decide)
  exact ⟨u, hu, (hrows (by decide)).trans (by decide)⟩

end Table
end LazyQuery
