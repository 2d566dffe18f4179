import LazyQuery.Proofs.Scalar.Comparison

/-!
# The order of floats

Floats are ordered as numbers, with the undefined ones last, and an integer is never rounded past
another one.

* `compareFloat_eq_rank` gives every float a place among triples of integers. That `compareFloat` is a
  total preorder follows from it (the instance of `Std.TransCmp`).
* `significand_mono` says that of two numbers of one length the greater one is rounded to the greater
  significand. Rounding looks at what was cut off, so the invariant is on extended mantissas
  (`quarters`): a mantissa with the two bits after it.
* `compareFloat_floatOfInt` puts the two together.
-/

set_option autoImplicit false

namespace LazyQuery.Binary

open Float.Model Float.Model.UnpackedFloat
open scoped Numbers

/-! ## Floats by rank -/

/-- The place of a float: its class, then its exponent and its mantissa, both reversed below zero. -/
def rank : UnpackedFloat → Int × Int × Int
  | .infinity .negative => (-2, 0, 0)
  | .finite .negative m e _ => (-1, -e, -m)
  | .zero _ => (0, 0, 0)
  | .finite .positive m e _ => (1, e, m)
  | .infinity .positive => (2, 0, 0)
  | .notANumber => (3, 0, 0)

/-- Triples are compared from the front. -/
def compareRank : Int × Int × Int → Int × Int × Int → Ordering :=
  compareLex (compareOn (·.1)) (compareLex (compareOn (·.2.1)) (compareOn (·.2.2)))

instance : Std.TransCmp compareRank :=
  inferInstanceAs (Std.TransCmp (compareLex _ (compareLex _ _)))

theorem compareRank_swap (a b : Int × Int × Int) : compareRank a b = (compareRank b a).swap :=
  Std.OrientedCmp.eq_swap

theorem compare_neg (k l : Int) : Ord.compare (-k) (-l) = (Ord.compare k l).swap := by
  rw [Int.compare_swap]
  simp [compare, compareOfLessAndEq, eq_comm]

theorem compare_natCast (m n : Nat) : Ord.compare (m : Int) n = Ord.compare m n := by
  simp [compare, compareOfLessAndEq]

theorem compare_eq_rank {a b : UnpackedFloat} (ha : a.isNaN = false) (hb : b.isNaN = false) :
    a.compare b = some (compareRank (rank a) (rank b)) := by
  cases a with
  | notANumber => cases ha
  | infinity s =>
    cases b with
    | notANumber => cases hb
    | infinity t => cases s <;> cases t <;> rfl
    | zero => cases s <;> rfl
    | finite t => cases s <;> cases t <;> rfl
  | zero =>
    cases b with
    | notANumber => cases hb
    | infinity t => cases t <;> rfl
    | zero => rfl
    | finite t => cases t <;> rfl
  | finite s m e =>
    cases b with
    | notANumber => cases hb
    | infinity t => cases s <;> cases t <;> rfl
    | zero => cases s <;> rfl
    | finite t m' e' =>
      cases s <;> cases t <;> try rfl
      · simp [UnpackedFloat.compare, compareRank, rank, compareLex, compareOn, compare_neg,
          compare_natCast, Ordering.swap_then]
      · simp [UnpackedFloat.compare, compareRank, rank, compareLex, compareOn, compare_natCast]

theorem rank_notANumber {a : UnpackedFloat} (h : a.isNaN = true) : rank a = (3, 0, 0) := by
  cases a with
  | notANumber => rfl
  | _ => cases h

theorem compareRank_notANumber {a : UnpackedFloat} (h : a.isNaN = false) :
    compareRank (rank a) (3, 0, 0) = .lt := by
  cases a with
  | notANumber => cases h
  | zero => rfl
  | infinity s => cases s <;> rfl
  | finite s => cases s <;> rfl

/-- **Floats are compared by their ranks.** -/
theorem compareFloat_eq_rank (x y : Float) :
    compareFloat x y = compareRank (rank x.toModel.unpack) (rank y.toModel.unpack) := by
  cases hx : x.isNaN with
  | false =>
    cases hy : y.isNaN with
    | false => exact Option.some.inj ((compareFloat_eq hx hy).trans (compare_eq_rank hx hy))
    | true =>
      rw [compareFloat, hx, hy, rank_notANumber hy, compareRank_notANumber hx]
      rfl
  | true =>
    cases hy : y.isNaN with
    | false =>
      rw [compareFloat, hx, hy, rank_notANumber hx, compareRank_swap, compareRank_notANumber hy]
      rfl
    | true =>
      rw [compareFloat, hx, hy, rank_notANumber hx, rank_notANumber hy]
      rfl

instance : Std.TransCmp compareFloat := by
  have h : compareFloat = Ordering.byKey (fun x => rank x.toModel.unpack) compareRank :=
    funext fun x => funext fun y => compareFloat_eq_rank x y
  exact h ▸ inferInstance

theorem compareFloat_swap (x y : Float) : compareFloat x y = (compareFloat y x).swap :=
  Std.OrientedCmp.eq_swap

/-! ## Rounding -/

/-- An extended mantissa in quarters of its last place. A trace of what was cut off before counts as
one. -/
def quarters (em : ExtendedMantissa) : Nat :=
  4 * em.mantissa + 2 * em.roundBit.toNat + em.stickyBit.toNat

variable {em em' : ExtendedMantissa} {n n' m m' : Nat} {q q' : Int}

theorem quarters_shiftRightOne (em : ExtendedMantissa) :
    quarters em.shiftRightOne = 2 * (quarters em / 4) + min (quarters em % 4) 1 := by
  obtain ⟨m, r, s⟩ := em
  rcases Nat.mod_two_eq_zero_or_one m with hm | hm <;> cases r <;> cases s <;>
    simp [quarters, ExtendedMantissa.shiftRightOne, hm] <;> omega

theorem quarters_shiftRight_mono (h : quarters em ≤ quarters em') (k : Nat) :
    quarters (em >>> k) ≤ quarters (em' >>> k) := by
  induction k with
  | zero => exact h
  | succ k ih =>
    rw [shiftRight_succ, shiftRight_succ, quarters_shiftRightOne, quarters_shiftRightOne]
    omega

theorem roundedMantissa_mono (h : quarters em ≤ quarters em') :
    em.roundedMantissa ≤ em'.roundedMantissa := by
  obtain ⟨m, r, s⟩ := em
  obtain ⟨m', r', s'⟩ := em'
  cases r <;> cases s <;> cases r' <;> cases s' <;>
    simp [quarters, ExtendedMantissa.roundedMantissa, ExtendedMantissa.accuracy,
      Accuracy.roundToNearestEven] at h ⊢ <;> omega

/-- **Of two numbers of one length, the greater one has the greater significand.** -/
theorem significand_mono (h : n ≤ n') (hlog : n.log2 = n'.log2) : significand n ≤ significand n' := by
  rw [significand, significand, hlog]
  refine roundedMantissa_mono (quarters_shiftRight_mono ?_ _)
  have := Nat.mul_le_mul_right (2 ^ 52) h
  simpa [quarters] using this

/-- A number is not rounded past a greater one. -/
theorem IsRounding.mono (h : IsRounding n m q) (h' : IsRounding n' m' q') (hm' : IsNormal m' q')
    (h0 : n ≠ 0) (hle : n ≤ n') : q < q' ∨ q = q' ∧ m ≤ m' := by
  have hfull := hm'.full
  have hfits := hm'.fits
  have hlog : n.log2 ≤ n'.log2 := (Nat.le_log2 (by omega)).2 ((Nat.log2_self_le h0).trans hle)
  rcases Nat.lt_or_eq_of_le hlog with hlog | hlog
  · unfold IsRounding at h h'
    omega
  · have := significand_mono hle hlog
    unfold IsRounding at h h'
    omega

/-! ## Integers among the floats -/

/-- The ranks of floats that are integers, or that integers are rounded to. -/
inductive Ranks : Int → Int × Int × Int → Prop
  | negative {n m : Nat} {q : Int} (h0 : n ≠ 0) (hm : IsNormal m q) (h : IsRounding n m q) :
      Ranks (-n) (-1, -q, -m)
  | zero : Ranks 0 (0, 0, 0)
  | positive {n m : Nat} {q : Int} (h0 : n ≠ 0) (hm : IsNormal m q) (h : IsRounding n m q) :
      Ranks n (1, q, m)

theorem ranks_floatOfInt (i : Int64) : Ranks i.toInt (rank (floatOfInt i).toModel.unpack) := by
  by_cases h0 : i = 0
  · subst h0
    exact .zero
  · have hne : i.toInt.natAbs ≠ 0 := by
      rw [Ne, Int.natAbs_eq_zero]
      exact fun h => h0 (Int64.toInt_inj.1 h)
    obtain ⟨s, m, q, hm, hmodel, -, h, hsign⟩ := unpack_floatOfInt h0
    rw [hmodel, hsign]
    cases s with
    | positive => exact .positive hne hm h
    | negative => exact .negative hne hm h

theorem isLE_compareRank {a b : Int × Int × Int} : (compareRank a b).isLE = true ↔
    a.1 < b.1 ∨ a.1 = b.1 ∧ (a.2.1 < b.2.1 ∨ a.2.1 = b.2.1 ∧ a.2.2 ≤ b.2.2) := by
  simp [compareRank, compareLex, compareOn, Ordering.isLE_then_iff_or, Int.compare_eq_lt,
    Int.isLE_compare]

/-- Ranks are in the order of the integers: below zero they run backwards. -/
theorem Ranks.mono {k l : Int} {a b : Int × Int × Int} (ha : Ranks k a) (hb : Ranks l b) (h : k ≤ l) :
    (compareRank a b).isLE = true := by
  rw [isLE_compareRank]
  cases ha with
  | negative h0 hm hr =>
    cases hb with
    | negative h0' hm' hr' =>
      refine .inr ⟨rfl, ?_⟩
      rcases hr'.mono hr hm h0' (by omega) with hq | ⟨rfl, hle⟩
      · exact .inl (Int.neg_lt_neg hq)
      · exact .inr ⟨rfl, Int.neg_le_neg (Int.ofNat_le.2 hle)⟩
    | zero | positive => exact .inl (by simp)
  | zero =>
    cases hb with
    | negative => omega
    | zero => simp
    | positive => exact .inl (by simp)
  | positive h0 hm hr =>
    cases hb with
    | negative | zero => omega
    | positive h0' hm' hr' =>
      refine .inr ⟨rfl, ?_⟩
      rcases hr.mono hr' hm' h0 (by omega) with hq | ⟨rfl, hle⟩
      · exact .inl hq
      · exact .inr ⟨rfl, Int.ofNat_le.2 hle⟩

/-- **An integer is not rounded past a greater one.** -/
theorem compareFloat_floatOfInt {i j : Int64} (h : i.toInt ≤ j.toInt) :
    (compareFloat (floatOfInt i) (floatOfInt j)).isLE = true := by
  rw [compareFloat_eq_rank]
  exact (ranks_floatOfInt i).mono (ranks_floatOfInt j) h

end LazyQuery.Binary
