import LazyQuery.Proofs.Table.Sorting

/-!
# Sorts that may give up

A comparison need not be one of a total preorder: cells are not compared so where a float straddles two
integers. What is promised of a sort then is little. A `Sorter` rearranges what it is given, or gives up; only
by a total preorder it is sure to sort, and stably. Two sorts keep that promise in opposite ways: one that
never gives up (`Sorter.merging`), and one that does whenever it may (`Sorter.strict`).

* `Sorts cmp xs` says that the comparison is that of a total preorder among the elements of a list.
* `sorts_compare` says this of cells among which nothing straddles, and `sorts_of_rows` of what is compared
  by rows whose key cells are such.
-/

set_option autoImplicit false

namespace LazyQuery

/-- Among the elements of a list the comparison is that of a total preorder. -/
def Sorts {α : Type} (cmp : α → α → Ordering) (xs : List α) : Prop :=
  Std.TransCmp fun a b : {x // x ∈ xs} => cmp a b

/-- A way of sorting by a comparison. It may give up. -/
structure Sorter where
  sort {α : Type} : (α → α → Ordering) → List α → Option (List α)
  /-- What it yields is a rearrangement. -/
  perm {α : Type} {cmp : α → α → Ordering} {xs ys : List α} : sort cmp xs = some ys → ys.Perm xs
  /-- It sorts by a total preorder, and leaves elements that tie in their order. -/
  stable {α : Type} {cmp : α → α → Ordering} {xs : List α} :
    Sorts cmp xs → sort cmp xs = some (xs.mergeSort fun a b => cmp a b != .gt)

namespace Sorter

/-- The sort that merges sorted parts, whatever the comparison. -/
def merging : Sorter where
  sort cmp xs := some (xs.mergeSort fun a b => cmp a b != .gt)
  perm h := Option.some.inj h ▸ List.mergeSort_perm _ _
  stable _ := rfl

open Classical in
/-- The sort that gives up unless the comparison is that of a total preorder. -/
noncomputable def strict : Sorter where
  sort cmp xs := if Sorts cmp xs then some (xs.mergeSort fun a b => cmp a b != .gt) else none
  perm h := by
    obtain ⟨-, h⟩ := Option.ite_none_right_eq_some.1 h
    exact Option.some.inj h ▸ List.mergeSort_perm _ _
  stable h := if_pos h

theorem strict_eq_none {α : Type} {cmp : α → α → Ordering} {xs : List α} (h : ¬ Sorts cmp xs) :
    strict.sort cmp xs = none := if_neg h

end Sorter

/-! ## Cells and rows -/

/-- Is there a float among the values that straddles two integers among them? -/
def Straddled (values : List Scalar) : Prop :=
  ∃ a ∈ values, ∃ b ∈ values, ∃ c ∈ values, Scalar.Straddles a b c

/-- **Cells are in a total preorder if none of them straddles two others.** -/
theorem sorts_compare {values : List Scalar} (h : ¬ Straddled values) : Sorts Scalar.compare values where
  eq_swap := Std.OrientedCmp.eq_swap
  isLE_trans := fun {a b c} =>
    Scalar.isLE_trans fun hs => h ⟨a, a.2, b, b.2, c, c.2, hs⟩

/-- A float that straddles two integers makes for no total preorder. -/
theorem not_sorts_of_straddles {α : Type} {cmp : α → α → Ordering} {xs : List α} {a b c : α}
    (ha : a ∈ xs) (hb : b ∈ xs) (hc : c ∈ xs) (hab : cmp a b = .eq) (hbc : cmp b c = .eq)
    (hac : cmp a c = .gt) : ¬ Sorts cmp xs := by
  intro h
  have hle := h.isLE_trans (a := ⟨a, ha⟩) (b := ⟨b, hb⟩) (c := ⟨c, hc⟩)
    (Ordering.isLE_of_eq_eq hab) (Ordering.isLE_of_eq_eq hbc)
  rw [hac] at hle
  cases hle

theorem compareRows_cons (c : Column) (ascending : Bool) (keys : List (Column × Bool)) (i j : Nat) :
    Table.compareRows ((c, ascending) :: keys) i j =
      (Scalar.directed ascending ((c.values.getD i .null).compare (c.values.getD j .null))).then
        (Table.compareRows keys i j) := by
  rw [Table.compareRows, Scalar.directed]
  cases if ascending = true then (c.values.getD i .null).compare (c.values.getD j .null)
    else ((c.values.getD i .null).compare (c.values.getD j .null)).swap <;> rfl

/-- Rows are in a total preorder if in no key column a cell straddles two others. -/
theorem transCmp_compareRows {α : Type} {row : α → Nat} {keys : List (Column × Bool)}
    (h : ∀ k ∈ keys, ¬ Straddled k.1.values ∧ ∀ x, row x < k.1.values.length) :
    Std.TransCmp fun x y => Table.compareRows keys (row x) (row y) := by
  induction keys with
  | nil => exact { eq_swap := rfl, isLE_trans := fun _ _ => rfl }
  | cons k keys ih =>
    obtain ⟨c, ascending⟩ := k
    rw [List.forall_mem_cons] at h
    obtain ⟨⟨hc, hlt⟩, hrest⟩ := h
    have hrest := ih hrest
    have hcells : Std.TransCmp fun a b : {v // v ∈ c.values} => Scalar.compare a b := sorts_compare hc
    let cell (x : α) : {v // v ∈ c.values} := ⟨c.values.getD (row x) .null, by
      rw [List.getD_eq_getElem _ _ (hlt x)]
      exact List.getElem_mem _⟩
    have hcell : Std.TransCmp fun x y =>
        Scalar.directed ascending (Scalar.compare (cell x) (cell y)) :=
      Scalar.transCmp_directed
        (Ordering.byKey cell fun a b : {v // v ∈ c.values} => Scalar.compare a b) ascending
    have hlex : (fun x y => Table.compareRows ((c, ascending) :: keys) (row x) (row y)) =
        compareLex (fun x y => Scalar.directed ascending (Scalar.compare (cell x) (cell y)))
          fun x y => Table.compareRows keys (row x) (row y) := by
      funext x y
      rw [compareLex, compareRows_cons]
    rw [hlex]
    infer_instance

/-- What is compared by rows is in a total preorder if in no key column a cell straddles two others. -/
theorem sorts_of_rows {α : Type} {cmp : α → α → Ordering} {xs : List α} (row : α → Nat)
    (keys : List (Column × Bool))
    (hcmp : ∀ x ∈ xs, ∀ y ∈ xs, cmp x y = Table.compareRows keys (row x) (row y))
    (h : ∀ k ∈ keys, ¬ Straddled k.1.values ∧ ∀ x ∈ xs, row x < k.1.values.length) : Sorts cmp xs := by
  have hrows : Std.TransCmp fun a b : {x // x ∈ xs} => Table.compareRows keys (row a) (row b) :=
    transCmp_compareRows fun k hk => ⟨(h k hk).1, fun x => (h k hk).2 x x.2⟩
  have hsame : (fun a b : {x // x ∈ xs} => cmp a b) =
      fun a b : {x // x ∈ xs} => Table.compareRows keys (row a) (row b) :=
    funext fun a => funext fun b => hcmp a a.2 b b.2
  rwa [Sorts, hsame]

end LazyQuery
