import LazyQuery.Proofs.Scalar.Equality
import LazyQuery.Proofs.Scalar.FloatOrder

/-!
# The order of cells

`compare` should be a total preorder, since tables are sorted by it. Read backwards it says the same (the
instance of `Std.OrientedCmp`), but it is transitive only up to rounding: an integer is rounded where it
meets a float, and is not where it meets an integer.

* `compare_eq_then` takes the order apart: cells are compared with all integers rounded
  (`compareRounded`), and then integers as they are (`compareIntegers`). The first is a total preorder.
* `Straddles` is the one way in which the two do not fit: a float stands for two integers that are
  rounded to it (`compare_totalPreorder_iff`).
* Without floats there is nothing to round. `compare_eq_whole` and `compareTuple_eq_whole` say that the
  order of such cells, and of tuples of them, is a total preorder, and `keyOf_eq_of_compareTuple` that
  equal tuples have one key.
-/

set_option autoImplicit false

namespace LazyQuery.Scalar

open Binary (compareFloat compareFloat_swap)

variable {a b c : Scalar} {i j : Int64} {x : Double}

/-! ## Lists -/

/-- The recursion that the orders of texts, of blobs and of tuples have in common. -/
theorem eq_compareLex {α : Type} {cmp : α → α → Ordering} {f : List α → List α → Ordering}
    (hnil : f [] [] = .eq) (hlt : ∀ b bs, f [] (b :: bs) = .lt) (hgt : ∀ a as, f (a :: as) [] = .gt)
    (hcons : ∀ a as b bs, f (a :: as) (b :: bs) = (cmp a b).then (f as bs)) :
    f = List.compareLex cmp := by
  funext as bs
  induction as generalizing bs with
  | nil => cases bs <;> simp [hnil, hlt, List.compareLex_nil_nil, List.compareLex_nil_cons]
  | cons a as ih =>
    cases bs <;> simp [hgt, hcons, ih, List.compareLex_cons_nil, List.compareLex_cons_cons]

theorem compareChars_eq : compareChars = List.compareLex (compareOn Char.toNat) :=
  eq_compareLex rfl (fun _ _ => rfl) (fun _ _ => rfl) fun a _ b _ => by
    rw [compareChars, compareOn]
    cases Ord.compare a.toNat b.toNat <;> rfl

theorem compareBytes_eq : compareBytes = List.compareLex (compareOn UInt8.toNat) :=
  eq_compareLex rfl (fun _ _ => rfl) (fun _ _ => rfl) fun a _ b _ => by
    rw [compareBytes, compareOn]
    cases Ord.compare a.toNat b.toNat <;> rfl

theorem compareTuple_eq : compareTuple = List.compareLex compare :=
  eq_compareLex rfl (fun _ _ => rfl) (fun _ _ => rfl) fun a _ b _ => by
    rw [compareTuple]
    cases compare a b <;> rfl

instance : Std.TransCmp compareChars := compareChars_eq ▸ inferInstance

instance : Std.TransCmp compareBytes := compareBytes_eq ▸ inferInstance

/-! ## Orders by kind -/

/-- A number that is no integer is a float. -/
theorem eq_float (hk : b.kindRank = 1) (hb : b.int? = none) : ∃ x, b = float x := by
  cases b with
  | float x => exact ⟨x, rfl⟩
  | bool | int => cases hb
  | null | text | blob => cases hk

/-- The characters of a text. -/
def textChars : Scalar → List Char
  | text s => s.toList
  | _ => []

/-- The bytes of a blob. -/
def blobBytes : Scalar → List UInt8
  | blob bs => bs
  | _ => []

section

variable {α : Type} (cmp : α → α → Ordering) (number : Scalar → α)

/-- Cells in the order of their kinds, and numbers in that of `number`. -/
def compareVia : Scalar → Scalar → Ordering :=
  compareLex (compareOn kindRank) (compareLex (.byKey number cmp)
    (compareLex (.byKey textChars compareChars) (.byKey blobBytes compareBytes)))

instance [Std.TransCmp cmp] : Std.TransCmp (compareVia cmp number) :=
  inferInstanceAs (Std.TransCmp (compareLex _ (compareLex _ (compareLex _ _))))

variable {cmp number}

theorem kindRank_eq (h : compareVia cmp number a b = .eq) : a.kindRank = b.kindRank :=
  Nat.compare_eq_eq.1 (Ordering.then_eq_eq.1 h).1

theorem compareVia_number (ha : a.kindRank = 1) (hb : b.kindRank = 1) :
    compareVia cmp number a b = cmp (number a) (number b) := by
  cases a <;> cases ha <;> cases b <;> cases hb <;>
    simp [compareVia, compareLex, compareOn, Ordering.byKey, kindRank, textChars, blobBytes,
      compareChars, compareBytes]

/-- Cells that are no numbers are in the same order whatever that of numbers is, if only it does not
tell them apart. -/
theorem compareVia_other (h : a.kindRank ≠ 1 ∨ b.kindRank ≠ 1)
    (hsame : a.kindRank ≠ 1 → b.kindRank ≠ 1 → cmp (number a) (number b) = .eq) :
    compareVia cmp number a b = a.compare b := by
  by_cases hk : a.kindRank = b.kindRank
  · have ha : a.kindRank ≠ 1 := h.elim id fun hb => hk ▸ hb
    rw [compareVia, compareLex, compareLex, compareOn, Ordering.byKey, Nat.compare_eq_eq.2 hk,
      hsame ha (hk ▸ ha)]
    cases a <;> cases b <;> cases hk <;>
      simp [compareLex, Ordering.byKey, compare, textChars, blobBytes, compareChars, compareBytes,
        kindRank] at ha ⊢
  · have hc : Ord.compare a.kindRank b.kindRank ≠ .eq := mt Nat.compare_eq_eq.1 hk
    rw [compare_of_kindRank hk, compareVia, compareLex, compareOn]
    cases h : Ord.compare a.kindRank b.kindRank <;> simp [h] at hc ⊢

end

/-! ## The order up to rounding -/

/-- A number as a float: integers are rounded. -/
def rounded (a : Scalar) : Float := (a.float?.getD (.ofFloat 0)).value

/-- The order of cells if integers are rounded also among themselves. -/
def compareRounded : Scalar → Scalar → Ordering := compareVia compareFloat rounded

/-- The order of integers as they are; other cells are alike. -/
def compareIntegers (a b : Scalar) : Ordering :=
  match a.int?, b.int? with
  | some i, some j => Ord.compare i.toInt j.toInt
  | _, _ => .eq

instance : Std.TransCmp compareRounded := inferInstanceAs (Std.TransCmp (compareVia _ _))

instance : Std.OrientedCmp compareIntegers where
  eq_swap := by
    intro a b
    unfold compareIntegers
    cases a.int? with
    | none => cases b.int? <;> rfl
    | some i =>
      cases b.int? with
      | none => rfl
      | some j => exact (Int.compare_swap ..).symm

theorem compareIntegers_of_none (h : a.int? = none ∨ b.int? = none) : compareIntegers a b = .eq := by
  rcases h with h | h
  · rw [compareIntegers, h]
  · rw [compareIntegers, h]
    cases a.int? <;> rfl

theorem rounded_of_int? (h : a.int? = some i) : a.kindRank = 1 ∧ a.rounded = floatOfInt i := by
  cases a <;> cases h <;> simp [kindRank, rounded, float?, doubleOfInt, Double.value_ofFloat]

theorem rounded_of_other (h : a.kindRank ≠ 1) : a.int? = none ∧ a.rounded = (Double.ofFloat 0).value := by
  cases a <;> first | exact absurd rfl h | exact ⟨rfl, rfl⟩

theorem compareFloat_self (x : Float) : compareFloat x x = .eq := Std.ReflCmp.compare_self

/-- Rounded integers are in no other order than the integers themselves. -/
theorem compareFloat_then (i j : Int64) :
    (compareFloat (floatOfInt i) (floatOfInt j)).then (Ord.compare i.toInt j.toInt) =
      Ord.compare i.toInt j.toInt := by
  have hle := Binary.compareFloat_floatOfInt (i := i) (j := j)
  have hge := Binary.compareFloat_floatOfInt (i := j) (j := i)
  rw [compareFloat_swap] at hge
  generalize compareFloat (floatOfInt i) (floatOfInt j) = o at hle hge ⊢
  rcases Int.lt_trichotomy i.toInt j.toInt with h | h | h
  · rw [Int.compare_eq_lt.2 h]
    cases o <;> simp [h.le] at hle ⊢
  · rw [Int.compare_eq_eq.2 h]
    cases o <;> simp [h] at hle hge ⊢
  · rw [Int.compare_eq_gt.2 h]
    cases o <;> simp [h.le] at hge ⊢

/-- **The order of cells is the order up to rounding, and then that of integers.** -/
theorem compare_eq_then (a b : Scalar) :
    a.compare b = (compareRounded a b).then (compareIntegers a b) := by
  by_cases hk : a.kindRank = 1 ∧ b.kindRank = 1
  · obtain ⟨hka, hkb⟩ := hk
    rw [compareRounded, compareVia_number hka hkb]
    cases ha : a.int? with
    | none =>
      obtain ⟨x, rfl⟩ := eq_float hka ha
      rw [compareIntegers_of_none (.inl ha), Ordering.then_eq]
      cases b <;> cases hkb <;> rfl
    | some i =>
      cases hb : b.int? with
      | none =>
        obtain ⟨x, rfl⟩ := eq_float hkb hb
        rw [compareIntegers_of_none (.inr hb), Ordering.then_eq, compare_int_float ha,
          (rounded_of_int? ha).2]
        rfl
      | some j =>
        rw [compare_of_int? ha hb, compareIntegers, ha, hb, (rounded_of_int? ha).2,
          (rounded_of_int? hb).2]
        exact (compareFloat_then i j).symm
  · have hk : a.kindRank ≠ 1 ∨ b.kindRank ≠ 1 := Decidable.not_and_iff_or_not.1 hk
    have hnone := hk.imp (fun h => (rounded_of_other h).1) fun h => (rounded_of_other h).1
    rw [compareIntegers_of_none hnone, Ordering.then_eq, compareRounded, compareVia_other hk]
    intro ha hb
    rw [(rounded_of_other ha).2, (rounded_of_other hb).2, compareFloat_self]

instance : Std.OrientedCmp compare where
  eq_swap := by
    intro a b
    have hrounded : compareRounded a b = (compareRounded b a).swap := Std.OrientedCmp.eq_swap
    have hintegers : compareIntegers a b = (compareIntegers b a).swap := Std.OrientedCmp.eq_swap
    rw [compare_eq_then, compare_eq_then b, Ordering.swap_then, ← hrounded, ← hintegers]

theorem compare_swap (a b : Scalar) : a.compare b = (b.compare a).swap := Std.OrientedCmp.eq_swap

/-! ## Where the order is transitive -/

/-- Two integers in the wrong order are rounded to the float between them. -/
inductive Straddles : Scalar → Scalar → Scalar → Prop
  | mk {a c : Scalar} {i j : Int64} {x : Double} (ha : a.int? = some i) (hc : c.int? = some j)
      (hi : floatOfInt i = x.value) (hj : floatOfInt j = x.value) (hlt : j.toInt < i.toInt) :
      Straddles a (float x) c

theorem Straddles.compare (h : Straddles a b c) :
    a.compare b = .eq ∧ b.compare c = .eq ∧ a.compare c = .gt := by
  obtain ⟨ha, hc, hi, hj, hlt⟩ := h
  refine ⟨?_, ?_, ?_⟩
  · rw [compare_int_float ha, hi, compareFloat_self]
  · rw [compare_comm, compare_int_float hc, hj, compareFloat_self]
  · rw [compare_of_int? ha hc, Int.compare_eq_gt.2 hlt]

/-- An integer that a float is equal to is rounded to it, but for the zero with a sign. -/
theorem floatOfInt_eq_value (ha : a.int? = some i) (h : a.compare (float x) = .eq) :
    floatOfInt i = x.value ∨ i = 0 ∧ Binary.IsZero x.value := by
  rw [compare_int_float ha, Binary.compareFloat_eq_iff] at h
  rcases h with h | ⟨hi, hx⟩ | ⟨hi, -⟩
  · exact .inl h
  · exact .inr ⟨Binary.eq_zero_of_isZero hi, hx⟩
  · rw [(Binary.floatOfInt_defined i).1] at hi
    cases hi

theorem lt_of_compareIntegers (h : ¬ (compareIntegers a c).isLE = true) :
    ∃ i j, a.int? = some i ∧ c.int? = some j ∧ j.toInt < i.toInt := by
  unfold compareIntegers at h
  split at h
  · rename_i i j ha hc
    rw [Int.isLE_compare] at h
    exact ⟨i, j, ha, hc, by omega⟩
  · exact absurd rfl h

/-- Among cells that are the same up to rounding the integers are in order, also where a cell that is no
integer stands between two of them. -/
theorem compareIntegers_trans (hab : compareRounded a b = .eq) (hbc : compareRounded b c = .eq)
    (hiab : (compareIntegers a b).isLE = true) (hibc : (compareIntegers b c).isLE = true)
    (h : ¬ Straddles a b c) : (compareIntegers a c).isLE = true := by
  by_contra hgt
  obtain ⟨i, j, ha, hc, hlt⟩ := lt_of_compareIntegers hgt
  cases hb : b.int? with
  | some k =>
    simp only [compareIntegers, ha, hb, hc, Int.isLE_compare] at hiab hibc
    omega
  | none =>
    obtain ⟨x, rfl⟩ := eq_float ((kindRank_eq hab).symm.trans (rounded_of_int? ha).1) hb
    have hxa : a.compare (float x) = .eq := by
      rw [compare_eq_then, hab, compareIntegers_of_none (.inr hb)]
      rfl
    have hxc : c.compare (float x) = .eq := by
      rw [compare_comm, compare_eq_then, hbc, compareIntegers_of_none (.inl hb)]
      rfl
    rcases floatOfInt_eq_value ha hxa with hi | ⟨rfl, hx⟩ <;>
      rcases floatOfInt_eq_value hc hxc with hj | ⟨rfl, hx'⟩
    · exact h (.mk ha hc hi hj hlt)
    · rw [← hi] at hx'
      rw [Binary.eq_zero_of_isZero hx'] at hlt
      omega
    · rw [← hj] at hx
      rw [Binary.eq_zero_of_isZero hx] at hlt
      omega
    · omega

/-- **The order of cells is transitive but where a float straddles two integers.** -/
theorem isLE_trans (h : ¬ Straddles a b c) (hab : (a.compare b).isLE = true)
    (hbc : (b.compare c).isLE = true) : (a.compare c).isLE = true := by
  rw [compare_eq_then, Ordering.isLE_then_iff_or] at hab hbc ⊢
  rcases hab with hab | ⟨hab, hiab⟩ <;> rcases hbc with hbc | ⟨hbc, hibc⟩
  · exact .inl (Std.TransCmp.lt_trans hab hbc)
  · exact .inl (Std.TransCmp.lt_of_lt_of_eq hab hbc)
  · exact .inl (Std.TransCmp.lt_of_eq_of_lt hab hbc)
  · exact .inr ⟨Std.TransCmp.eq_trans hab hbc, compareIntegers_trans hab hbc hiab hibc h⟩

theorem eq_trans (h : ¬ (Straddles a b c ∨ Straddles c b a)) (hab : a.compare b = .eq)
    (hbc : b.compare c = .eq) : a.compare c = .eq := by
  obtain ⟨hac, hca⟩ := not_or.1 h
  have hle := isLE_trans hac (Ordering.isLE_of_eq_eq hab) (Ordering.isLE_of_eq_eq hbc)
  have hge := isLE_trans hca (Ordering.isLE_of_eq_eq (compare_comm.1 hbc))
    (Ordering.isLE_of_eq_eq (compare_comm.1 hab))
  rw [compare_swap] at hge
  cases hc : a.compare c <;> simp [hc] at hle hge ⊢

/-- **How far the order of cells is a total preorder.** Read backwards it says the same. It is
transitive but where a float straddles two integers, and its equality is but where one does so in either
order. -/
theorem compare_totalPreorder_iff (a b c : Scalar) :
    b.compare a = (a.compare b).swap ∧
      ((a.compare b ≠ .gt → b.compare c ≠ .gt → a.compare c ≠ .gt) ↔ ¬ Straddles a b c) ∧
      ((a.compare b = .eq → b.compare c = .eq → a.compare c = .eq) ↔
        ¬ (Straddles a b c ∨ Straddles c b a)) := by
  refine ⟨compare_swap b a, ⟨fun h hs => ?_, fun h => ?_⟩,
    ⟨fun h hs => ?_, eq_trans⟩⟩
  · obtain ⟨hab, hbc, hac⟩ := hs.compare
    exact h (by simp [hab]) (by simp [hbc]) hac
  · simpa only [Ordering.ne_gt_iff_isLE] using isLE_trans h
  · rcases hs with hs | hs
    · obtain ⟨hab, hbc, hac⟩ := hs.compare
      simp [h hab hbc] at hac
    · obtain ⟨hcb, hba, hca⟩ := hs.compare
      rw [compare_comm.1 (h (compare_comm.1 hba) (compare_comm.1 hcb))] at hca
      cases hca

/-- Two to the power of 53 stands for itself and for its successor. -/
example : Straddles (int 9007199254740993) (float ⟨0x4340000000000000⟩) (int 9007199254740992) :=
  .mk rfl rfl rfl rfl (by decide)

/-! ## Cells without floats -/

/-- A truth value or an integer as an integer. -/
def whole (a : Scalar) : Int := (a.int?.getD 0).toInt

/-- The order of cells that are no floats. -/
def compareWhole : Scalar → Scalar → Ordering := compareVia Ord.compare whole

instance : Std.TransCmp compareWhole := inferInstanceAs (Std.TransCmp (compareVia _ _))

theorem whole_of_int? (h : a.int? = some i) : a.whole = i.toInt := by rw [whole, h]; rfl

theorem whole_of_other (h : a.kindRank ≠ 1) : a.whole = 0 := by
  rw [whole, (rounded_of_other h).1]
  rfl

/-- **Among cells that are no floats the order is a total preorder.** -/
theorem compare_eq_whole (ha : ∀ x, a ≠ float x) (hb : ∀ x, b ≠ float x) :
    a.compare b = compareWhole a b := by
  by_cases hk : a.kindRank = 1 ∧ b.kindRank = 1
  · have integer {v : Scalar} (hv : ∀ x, v ≠ float x) (hk : v.kindRank = 1) : ∃ i, v.int? = some i := by
      refine Option.ne_none_iff_exists'.1 fun h => ?_
      obtain ⟨x, hx⟩ := eq_float hk h
      exact hv x hx
    obtain ⟨i, hi⟩ := integer ha hk.1
    obtain ⟨j, hj⟩ := integer hb hk.2
    rw [compareWhole, compareVia_number hk.1 hk.2, compare_of_int? hi hj, whole_of_int? hi,
      whole_of_int? hj]
  · refine (compareVia_other (Decidable.not_and_iff_or_not.1 hk) fun hka hkb => ?_).symm
    rw [whole_of_other hka, whole_of_other hkb, Int.compare_eq_eq]

theorem compareTuple_eq_whole {as bs : List Scalar} (ha : ∀ x, float x ∉ as) (hb : ∀ x, float x ∉ bs) :
    compareTuple as bs = List.compareLex compareWhole as bs := by
  rw [compareTuple_eq]
  induction as generalizing bs with
  | nil => cases bs <;> rfl
  | cons a as ih =>
    cases bs with
    | nil => rfl
    | cons b bs =>
      simp only [List.mem_cons, not_or] at ha hb
      rw [List.compareLex_cons_cons, List.compareLex_cons_cons,
        compare_eq_whole (fun x h => (ha x).1 h.symm) (fun x h => (hb x).1 h.symm),
        ih (fun x => (ha x).2) fun x => (hb x).2]

/-- Cells that are no floats have one frame if they are equal. -/
theorem frame_eq_of_compare (ha : ∀ x, a ≠ float x) (hb : ∀ x, b ≠ float x)
    (h : a.compare b = .eq) : a.frame = b.frame := by
  have hk : a.kindRank = b.kindRank := not_imp_comm.1 compare_ne (not_not_intro h)
  cases a with
  | float x => exact absurd rfl (ha x)
  | null => cases b <;> first | rfl | cases hk
  | bool | int =>
    cases b with
    | float x => exact absurd rfl (hb x)
    | bool | int => exact (frame_held rfl rfl).2 ((compare_int rfl rfl).1 h)
    | null | text | blob => cases hk
  | text =>
    cases b <;> cases hk
    rw [compare, compareChars_eq_iff, String.toList_inj] at h
    rw [h]
  | blob =>
    cases b <;> cases hk
    rw [compare, compareBytes_eq_iff] at h
    rw [h]

theorem keyOf_eq_of_compareTuple {as bs : List Scalar} (ha : ∀ x, float x ∉ as)
    (hb : ∀ x, float x ∉ bs) (h : compareTuple as bs = .eq) : keyOf as = keyOf bs := by
  rw [compareTuple_eq] at h
  induction as generalizing bs with
  | nil =>
    cases bs with
    | nil => rfl
    | cons => simp [List.compareLex_nil_cons] at h
  | cons a as ih =>
    cases bs with
    | nil => simp [List.compareLex_cons_nil] at h
    | cons b bs =>
      simp only [List.mem_cons, not_or] at ha hb
      rw [List.compareLex_cons_cons, Ordering.then_eq_eq] at h
      have hframe := frame_eq_of_compare (fun x h => (ha x).1 h.symm) (fun x h => (hb x).1 h.symm) h.1
      have htail := ih (fun x => (ha x).2) (fun x => (hb x).2) h.2
      rw [keyOf, List.flatMap_cons, hframe]
      exact congrArg (b.frame ++ ·) htail

end LazyQuery.Scalar
