import LazyQuery.Proofs.Scalar.Order
import LazyQuery.Proofs.Table.Level
import LazyQuery.Proofs.Table.Rows

/-!
# Sorted tables

What sorting a table by some columns means is said by `Precedes`: which of two rows comes first, column
by column. Where the columns hold no floats, the rows of the result are those of the table in that
order, rows that tie being left as they were (`sortValues_sorted`).

* `compareBy_eq_lt_iff` and `compareBy_eq_eq_iff` say that the rows are compared by just that, and
  `transCmp_compareBy` that this is a total preorder.
* `pairwise_sortRange` is the order, ties included, in which a merge sort leaves the numbers of rows.
-/

set_option autoImplicit false

namespace LazyQuery

/-! ## Sorts -/

section

variable {α : Type} (cmp : α → α → Ordering) [Std.TransCmp cmp]

theorem bne_gt_trans (a b c : α) (hab : (cmp a b != .gt) = true) (hbc : (cmp b c != .gt) = true) :
    (cmp a c != .gt) = true := by
  simp only [bne_iff_ne, ne_eq, Ordering.ne_gt_iff_isLE] at hab hbc ⊢
  exact Std.TransCmp.isLE_trans hab hbc

theorem bne_gt_total (a b : α) : (cmp a b != .gt || cmp b a != .gt) = true := by
  have hswap : cmp b a = (cmp a b).swap := Std.OrientedCmp.eq_swap
  rw [hswap]
  cases cmp a b <;> rfl

theorem pairwise_sorted (xs : List α) :
    (xs.mergeSort fun a b => cmp a b != .gt).Pairwise fun a b => (cmp a b != .gt) = true :=
  List.pairwise_mergeSort (bne_gt_trans cmp) (bne_gt_total cmp) xs

end

/-- The order of the numbers that a sort leaves, ties included. -/
theorem pairwise_sortRange (cmp : Nat → Nat → Ordering) [Std.TransCmp cmp] (n : Nat) :
    ((List.range n).mergeSort fun i j => cmp i j != .gt).Pairwise fun i j =>
      cmp i j = .lt ∨ cmp i j = .eq ∧ i < j := by
  have hzip : (List.range n).zipIdx = (List.range n).map fun i => (i, i) := by
    simpa using zipIdx_map_range id n
  have hsorted := List.pairwise_mergeSort (List.zipIdxLE_trans (bne_gt_trans cmp))
    (List.zipIdxLE_total (bne_gt_total cmp)) (List.range n).zipIdx
  have hperm := List.mergeSort_perm (List.range n).zipIdx (List.zipIdxLE fun i j => cmp i j != .gt)
  have hnodup := hperm.nodup_iff.2 (hzip ▸ List.nodup_range.map fun i j h => congrArg Prod.fst h)
  rw [← List.mergeSort_zipIdx, List.pairwise_map]
  refine (hsorted.and hnodup).imp_of_mem ?_
  rintro ⟨i, i'⟩ ⟨j, j'⟩ hi hj ⟨hle, hne⟩
  rw [hperm.mem_iff, hzip] at hi hj
  obtain ⟨_, -, ⟨⟩⟩ := List.mem_map.1 hi
  obtain ⟨_, -, ⟨⟩⟩ := List.mem_map.1 hj
  have hij : i ≠ j := fun h => hne (by rw [h])
  have hswap : cmp j i = (cmp i j).swap := Std.OrientedCmp.eq_swap
  rw [List.zipIdxLE, hswap] at hle
  cases hc : cmp i j <;> simp [hc] at hle ⊢
  omega

namespace Scalar

variable {a b : Scalar} {ascending : Bool}

/-- Does a cell come before another one? Null comes first in ascending and last in descending order. -/
def ComesBefore (ascending : Bool) : Scalar → Scalar → Prop
  | null, null => False
  | null, _ => ascending = true
  | _, null => ascending = false
  | a, b => a.compare b = if ascending then .lt else .gt

/-- An order in the one or the other direction. -/
def directed (ascending : Bool) (o : Ordering) : Ordering := if ascending then o else o.swap

theorem directed_eq_eq_iff {o : Ordering} : directed ascending o = .eq ↔ o = .eq := by
  cases ascending <;> simp [directed]

theorem transCmp_directed {α : Type} (cmp : α → α → Ordering) [Std.TransCmp cmp] (ascending : Bool) :
    Std.TransCmp fun a b => directed ascending (cmp a b) := by
  cases ascending with
  | true => exact inferInstanceAs (Std.TransCmp cmp)
  | false =>
    have hswap : (fun a b => directed false (cmp a b)) = fun a b => cmp b a :=
      funext fun a => funext fun b => Std.OrientedCmp.eq_swap.symm
    exact hswap ▸ Std.TransCmp.opposite

theorem comesBefore_iff : ComesBefore ascending a b ↔ directed ascending (a.compare b) = .lt := by
  cases a <;> cases b <;> cases ascending <;> simp [ComesBefore, directed, compare]

end Scalar

namespace Table

variable {t : Table} {keys : List (String × Bool)} {i j : Nat}

/-- Does a row come before another one? At some key it does, and at the keys before that they are
equal. -/
inductive Precedes (t : Table) (i j : Nat) : List (String × Bool) → Prop
  | here {name : String} {ascending : Bool} {rest : List (String × Bool)}
      (h : (t.cell name i).ComesBefore ascending (t.cell name j)) :
      Precedes t i j ((name, ascending) :: rest)
  | later {name : String} {ascending : Bool} {rest : List (String × Bool)}
      (h : (t.cell name i).compare (t.cell name j) = .eq) (hrest : Precedes t i j rest) :
      Precedes t i j ((name, ascending) :: rest)

theorem compareBy_cons (name : String) (ascending : Bool) (keys : List (String × Bool)) (i j : Nat) :
    t.compareBy ((name, ascending) :: keys) i j =
      (Scalar.directed ascending ((t.cell name i).compare (t.cell name j))).then
        (t.compareBy keys i j) := by
  rw [compareBy, Scalar.directed]
  cases if ascending = true then (t.cell name i).compare (t.cell name j)
    else ((t.cell name i).compare (t.cell name j)).swap <;> rfl

theorem compareBy_eq_eq_iff :
    t.compareBy keys i j = .eq ↔ ∀ k ∈ keys, (t.cell k.1 i).compare (t.cell k.1 j) = .eq := by
  induction keys with
  | nil => simp [compareBy]
  | cons k keys ih =>
    rw [compareBy_cons, Ordering.then_eq_eq, Scalar.directed_eq_eq_iff, ih, List.forall_mem_cons]

/-- **Rows are compared by which of them comes first.** -/
theorem compareBy_eq_lt_iff : t.compareBy keys i j = .lt ↔ t.Precedes i j keys := by
  induction keys with
  | nil => exact iff_of_false nofun nofun
  | cons k keys ih =>
    rw [compareBy_cons, Ordering.then_eq_lt, ← Scalar.comesBefore_iff, Scalar.directed_eq_eq_iff, ih]
    constructor
    · rintro (h | ⟨h, hrest⟩)
      · exact .here h
      · exact .later h hrest
    · rintro (h | ⟨h, hrest⟩)
      · exact .inl h
      · exact .inr ⟨h, hrest⟩

/-- The column of the name holds no float. -/
def FloatFree (t : Table) (name : String) : Prop :=
  ∀ c, t.column? name = some c → ∀ x, Scalar.float x ∉ c.values

theorem FloatFree.cell {name : String} (h : t.FloatFree name) (i : Nat) (x : Double) :
    t.cell name i ≠ .float x := by
  rw [Table.cell]
  cases hc : t.column? name with
  | none => exact Scalar.noConfusion
  | some c =>
    intro hx
    rw [Option.elim_some, List.getD_eq_getElem?_getD] at hx
    cases hi : c.values[i]? with
    | none => simp [hi] at hx
    | some v =>
      refine h c hc x (hx ▸ ?_)
      simpa [hi] using List.mem_of_getElem? hi

/-- **Without floats in the keys the order of rows is a total preorder.** -/
theorem transCmp_compareBy (hf : ∀ k ∈ keys, t.FloatFree k.1) : Std.TransCmp (t.compareBy keys) := by
  induction keys with
  | nil => exact { eq_swap := rfl, isLE_trans := fun _ _ => rfl }
  | cons k keys ih =>
    obtain ⟨name, ascending⟩ := k
    rw [List.forall_mem_cons] at hf
    have hrest := ih hf.2
    have hcell := Scalar.transCmp_directed (.byKey (t.cell name) Scalar.compareWhole) ascending
    simp only [Ordering.byKey, ← Scalar.compare_eq_whole (hf.1.cell _) (hf.1.cell _)] at hcell
    have hlex : t.compareBy ((name, ascending) :: keys) = compareLex (fun i j =>
        Scalar.directed ascending ((t.cell name i).compare (t.cell name j))) (t.compareBy keys) :=
      funext fun i => funext fun j => compareBy_cons name ascending keys i j
    rw [hlex]
    infer_instance

/-! ## Sorted tables -/

theorem cell_take {order : List Nat} (hi : i < order.length) (name : String) :
    (t.take order).cell name i = t.cell name order[i] := by
  have hcolumn : (t.take order).column? name =
      (t.column? name).map fun c => ⟨c.name, order.map fun i => c.values.getD i .null⟩ := by
    simp [take, column?, List.find?_map]
  rw [cell, cell, hcolumn]
  cases t.column? name with
  | none => rfl
  | some c => simp [List.getElem?_eq_getElem hi]

theorem perm_sortOrder (t : Table) (keys : List (String × Bool)) :
    (t.sortOrder keys).Perm (List.range t.rowCount) :=
  List.mergeSort_perm _ _

theorem length_sortOrder (t : Table) (keys : List (String × Bool)) :
    (t.sortOrder keys).length = t.rowCount := by
  rw [(t.perm_sortOrder keys).length_eq, List.length_range]

theorem rowCount_sorted (t : Table) (keys : List (String × Bool)) :
    (t.take (t.sortOrder keys)).rowCount = t.rowCount := by
  by_cases hc : t.columns = []
  · simp [take, rowCount, hc]
  · rw [rowCount_take hc, length_sortOrder]

theorem rows_sorted (t : Table) (keys : List (String × Bool)) :
    (t.take (t.sortOrder keys)).rows = (t.sortOrder keys).map t.row := by
  by_cases hc : t.columns = []
  · simp [rows, take, sortOrder, rowCount, hc]
  · exact rows_take hc _

/-- The order of rows that a sort leaves. -/
theorem pairwise_sortOrder (hf : ∀ k ∈ keys, t.FloatFree k.1) : (t.sortOrder keys).Pairwise fun i j =>
    t.compareBy keys i j = .lt ∨ t.compareBy keys i j = .eq ∧ i < j :=
  have := transCmp_compareBy hf
  pairwise_sortRange (t.compareBy keys) t.rowCount

theorem compareBy_take {order : List Nat} (hi : i < order.length) (hj : j < order.length) :
    (t.take order).compareBy keys i j = t.compareBy keys order[i] order[j] := by
  induction keys with
  | nil => rfl
  | cons k keys ih => rw [compareBy_cons, compareBy_cons, cell_take hi, cell_take hj, ih]

/-- Rows that are in order stay where they are. -/
theorem sortOrder_sorted (hf : ∀ k ∈ keys, t.FloatFree k.1) :
    (t.take (t.sortOrder keys)).sortOrder keys = List.range t.rowCount := by
  have hpairs := List.pairwise_iff_getElem.1 (pairwise_sortOrder hf)
  rw [sortOrder, rowCount_sorted]
  refine List.mergeSort_of_pairwise (List.pairwise_iff_getElem.2 fun i j hi hj hij => ?_)
  rw [List.length_range, ← length_sortOrder t keys] at hi hj
  rw [List.getElem_range, List.getElem_range, compareBy_take hi hj]
  rcases hpairs i j hi hj hij with h | ⟨h, -⟩ <;> simp [h]

/-- **Sorting is a stable sort of whole rows.** The result has the rows of the table, each as a whole, in
an order in which each precedes those after it, or ties with them at all keys and stood before them.
Sorting once more changes nothing. -/
theorem sortValues_sorted (ht : t.Valid) (hk : ∀ k ∈ keys, k.1 ∈ t.names)
    (hf : ∀ k ∈ keys, t.FloatFree k.1) :
    ∃ (u : Table) (order : List Nat), t.sortValues keys = .ok u ∧ u.Valid ∧ u.names = t.names ∧
      order.Perm (List.range t.rowCount) ∧ u.rows = order.map t.row ∧
      order.Pairwise (fun i j => t.Precedes i j keys ∨
        (∀ k ∈ keys, (t.cell k.1 i).compare (t.cell k.1 j) = .eq) ∧ i < j) ∧
      u.sortValues keys = .ok u := by
  have hnames : ∀ n ∈ keys.map (·.1), n ∈ t.names := List.forall_mem_map.2 hk
  have hlevel := level_take t (t.sortOrder keys)
  refine ⟨_, t.sortOrder keys, sortValues_eq ht.1 hnames, ⟨hlevel, ?_⟩, names_take t _,
    t.perm_sortOrder keys, t.rows_sorted keys, ?_, ?_⟩
  · exact (names_take t _).symm ▸ ht.2
  · simpa only [compareBy_eq_lt_iff, compareBy_eq_eq_iff] using pairwise_sortOrder hf
  · rw [sortValues_eq hlevel ((names_take t _).symm ▸ hnames), sortOrder_sorted hf,
      ← rowCount_sorted t keys, take_range hlevel]

/-- Nulls last and ties as they were, in descending order. -/
theorem sortValues_sorted_descending :
    let t : Table :=
      ⟨[⟨"a", [.null, .int 1, .int 2, .bool true]⟩, ⟨"b", [.int 0, .int 1, .int 2, .int 3]⟩]⟩
    ∃ u, t.sortValues [("a", false)] = .ok u ∧
      u.rows = [[.int 2, .int 2], [.int 1, .int 1], [.bool true, .int 3], [.null, .int 0]] := by
  intro t
  have hfree : t.FloatFree "a" := by
    rintro c hc x hx
    obtain rfl := Option.some.inj hc
    simp at hx
  have hf : ∀ k ∈ [("a", false)], t.FloatFree k.1 := by simpa using hfree
  obtain ⟨u, order, hu, -, -, hperm, hrows, hpairs, -⟩ :=
    sortValues_sorted (t := t) (by unfold Valid; decide) (by decide) hf
  refine ⟨u, hu, ?_⟩
  -- No two orders of the rows leave every pair as it should be.
  have horder : order = [2, 1, 3, 0] := by
    simp only [← compareBy_eq_eq_iff, ← compareBy_eq_lt_iff] at hpairs
    have := transCmp_compareBy hf
    have hswap (i j : Nat) : t.compareBy [("a", false)] j i =
      (t.compareBy [("a", false)] i j).swap := Std.OrientedCmp.eq_swap
    refine List.Perm.eq_of_pairwise ?_ hpairs (by decide) (hperm.trans (by decide))
    intro i j _ _ hij hji
    rw [hswap] at hji
    cases hc : t.compareBy [("a", false)] i j <;> simp [hc] at hij hji
    omega
  rw [hrows, horder]
  rfl

end Table
end LazyQuery
