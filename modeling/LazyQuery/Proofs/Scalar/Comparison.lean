import LazyQuery.Proofs.Scalar.Floats
import LazyQuery.Scalar.Key

/-!
# Equality of numbers

When a comparison of numbers says that they are equal, and which floats a key holds as integers.

* Two floats are equal if they are the same, both zeros or both undefined (`compareFloat_eq_iff`); an
  integer and a float are equal if the float is that very integer (`compareInt_eq_iff`).
* A float is held as an integer if it is one of less than `2 ^ 63` (`framesAsInt_iff`), and then it is
  that integer (`compareInt_framed`). The least integer is a float that is not held as one; it is the
  only such integer (`compareInt_unframed`).
* The float of an integer is held as an integer, but for the two powers of two at the ends of the range
  (`framesAsInt_floatOfInt`).
-/

set_option autoImplicit false

namespace LazyQuery.Binary

open Float.Model Float.Model.Format Float.Model.UnpackedFloat
open Scalar (framesAsInt)
open scoped Numbers

variable {x y : Float} {m : Nat} {q : Int}

/-! ## Comparisons of floats -/

theorem lt_iff : x < y ↔ x.toModel.unpack.compare y.toModel.unpack = some .lt := by
  change decide (x.toModel < y.toModel) = true ↔ _
  rw [decide_eq_true_iff]
  exact beq_iff_eq

theorem unpack_inj : x.toModel.unpack = y.toModel.unpack ↔ x = y := by
  refine ⟨fun h => ?_, fun h => h ▸ rfl⟩
  have hmodel : x.toModel = y.toModel := by rw [← pack_toModel_unpack x, h, pack_toModel_unpack y]
  exact congrArg Float.ofModel hmodel

theorem isNaN_eq (x : Float) : x.isNaN = x.toModel.unpack.isNaN := rfl

theorem compare_swap (a b : UnpackedFloat) : b.compare a = (a.compare b).map Ordering.swap := by
  have signs (s t : Sign) : Ord.compare t s = (Ord.compare s t).swap := by
    cases s <;> cases t <;> rfl
  have fields (e e' : Int) (m m' : Nat) : (Ord.compare e' e).then (Ord.compare m' m) =
      ((Ord.compare e e').then (Ord.compare m m')).swap := by
    rw [Ordering.swap_then, Int.compare_swap, Nat.compare_swap]
  cases a with
  | notANumber => cases b <;> rfl
  | infinity s =>
    cases b with
    | infinity t => exact congrArg some (signs s t)
    | _ => cases s <;> rfl
  | zero s =>
    cases b with
    | infinity t => cases t <;> rfl
    | finite t => cases t <;> rfl
    | _ => rfl
  | finite s m e =>
    cases b with
    | infinity t => cases t <;> rfl
    | zero => cases s <;> rfl
    | notANumber => cases s <;> rfl
    | finite t m' e' =>
      cases s <;> cases t
      · exact congrArg some (congrArg Ordering.swap (fields e e' m m'))
      · rfl
      · rfl
      · exact congrArg some (fields e e' m m')

theorem compare_eq_iff {a b : UnpackedFloat} : a.compare b = some .eq ↔
    (a = b ∧ a ≠ .notANumber) ∨ ∃ s t, a = .zero s ∧ b = .zero t := by
  have fields (e e' : Int) (m m' : Nat) :
      (Ord.compare e e').then (Ord.compare m m') = .eq ↔ e = e' ∧ m = m' := by
    rw [Ordering.then_eq_eq, Int.compare_eq_eq, Nat.compare_eq_eq]
  cases a with
  | notANumber => cases b <;> simp [UnpackedFloat.compare]
  | infinity s => 
    cases b with
    | infinity t => cases s <;> cases t <;> simp [UnpackedFloat.compare] <;> decide
    | _ => cases s <;> simp [UnpackedFloat.compare]
  | zero s =>
    cases b with
    | infinity t => cases t <;> simp [UnpackedFloat.compare]
    | finite t => cases t <;> simp [UnpackedFloat.compare]
    | _ => simp [UnpackedFloat.compare]
  | finite s m e =>
    cases b with
    | infinity t => cases t <;> simp [UnpackedFloat.compare]
    | zero => cases s <;> simp [UnpackedFloat.compare]
    | notANumber => cases s <;> simp [UnpackedFloat.compare]
    | finite t m' e' =>
      cases s <;> cases t <;> simp [UnpackedFloat.compare, fields, and_comm]

theorem exists_compare {a b : UnpackedFloat} (ha : a.isNaN = false) (hb : b.isNaN = false) :
   ∃ o, a.compare b = some o := by
  cases a with
  | notANumber => cases ha
  | infinity s => cases b <;> cases s <;> first | exact ⟨_, rfl⟩ | cases hb
  | zero s =>
    cases b with
    | notANumber => cases hb
    | infinity t => cases t <;> exact ⟨_, rfl⟩
    | finite t => cases t <;> exact ⟨_, rfl⟩
    | zero => exact ⟨_, rfl⟩
  | finite s m e =>
    cases b with
    | notANumber => cases hb
    | infinity t => cases t <;> exact ⟨_, rfl⟩
    | zero => cases s <;> exact ⟨_, rfl⟩
    | finite t => cases s <;> cases t <;> exact ⟨_, rfl⟩

theorem compareFloat_eq (hx : x.isNaN = false) (hy : y.isNaN = false) :
    some (compareFloat x y) = x.toModel.unpack.compare y.toModel.unpack := by
  obtain ⟨o, ho⟩ := exists_compare hx hy
  have hswap := compare_swap x.toModel.unpack y.toModel.unpack
  rw [ho] at hswap
  simp only [compareFloat, lt_iff, ho, hswap, hx, hy]
  cases o <;> rfl

/-- Zero, with either sign. -/
def IsZero (x : Float) : Prop :=
  x = .ofBits 0 ∨ x = .ofBits Double.signBit

theorem isZero_iff : IsZero x ↔ ∃ s, x.toModel.unpack = .zero s := by
  have hpos : (Float.ofBits 0).toModel.unpack = .zero .positive := by rfl
  have hneg : (Float.ofBits Double.signBit).toModel.unpack = .zero .negative := by rfl
  constructor
  · rintro (rfl | rfl)
    · exact ⟨_, hpos⟩
    · exact ⟨_, hneg⟩
  · rintro ⟨s, hs⟩
    cases s with
    | positive => exact .inl (unpack_inj.1 (hs.trans hpos.symm))
    | negative => exact .inr (unpack_inj.1 (hs.trans hneg.symm))

theorem isNaN_of_isZero (hx : IsZero x) : x.isNaN = false := by
  obtain ⟨s, hs⟩ := isZero_iff.1 hx
  rw [isNaN_eq, hs]
  rfl

/-- **Two floats are equal in a comparison if they are the same, both zeros or both undefined.** -/
theorem compareFloat_eq_iff : compareFloat x y = .eq ↔
    x = y ∨ (IsZero x ∧ IsZero y) ∨ (x.isNaN = true ∧ y.isNaN = true) := by
  cases hx : x.isNaN with
  | true =>
    cases hy : y.isNaN with
    | true =>
      refine iff_of_true ?_ (.inr (.inr ⟨rfl, rfl⟩))
      rw [compareFloat, hx, hy]
      rfl
    | false =>
      refine iff_of_false ?_ ?_
      · rw [compareFloat, hx, hy]
        exact Ordering.noConfusion
      · rintro (rfl | ⟨hz, -⟩ | ⟨-, h⟩)
        · rw [hx] at hy
          cases hy
        · rw [isNaN_of_isZero hz] at hx
          cases hx
        · cases h
  | false =>
    cases hy : y.isNaN with
    | true =>
      refine iff_of_false ?_ ?_
      · rw [compareFloat, hx, hy]
        exact Ordering.noConfusion
      · rintro (rfl | ⟨-, hz⟩ | ⟨h, -⟩)
        · rw [hy] at hx
          cases hx
        · rw [isNaN_of_isZero hz] at hy
          cases hy
        · cases h
    | false =>
      have hdefined : x.toModel.unpack ≠ .notANumber := by
        intro h
        rw [isNaN_eq, h] at hx
        cases hx
      rw [← Option.some.injEq, compareFloat_eq hx hy, compare_eq_iff, unpack_inj, isZero_iff,
        isZero_iff, exists_and_exists_comm, and_iff_left hdefined]
      exact or_congr_right (or_iff_left fun h => Bool.false_ne_true h.1).symm

theorem compareFloat_comm : compareFloat x y = .eq ↔ compareFloat y x = .eq := by
  rw [compareFloat_eq_iff, compareFloat_eq_iff, eq_comm, and_comm, and_comm (a := x.isNaN = true)]

/-- A zero is equal to zeros. -/
theorem compareFloat_zero (hx : IsZero x) : compareFloat x y = .eq ↔ IsZero y := by
  rw [compareFloat_eq_iff]
  constructor
  · rintro (rfl | ⟨-, hy⟩ | ⟨hn, -⟩)
    · exact hx
    · exact hy
    · rw [isNaN_of_isZero hx] at hn
      cases hn
  · exact fun hy => .inr (.inl ⟨hx, hy⟩)

/-- What is told apart from zero is no zero. -/
theorem bne_zero_iff : (x != 0.0) = true ↔ ¬IsZero x := by
  have hbeq : (x == 0.0) = (x.toModel.unpack.compare (.zero .positive) == some .eq) := rfl
  rw [bne, hbeq, isZero_iff, Bool.not_eq_true', ← Bool.not_eq_true, beq_iff_eq, compare_eq_iff]
  refine not_congr ⟨?_, fun ⟨s, h⟩ => .inr ⟨s, .positive, h, rfl⟩⟩
  rintro (⟨h, -⟩ | ⟨s, -, h, -⟩)
  · exact ⟨_, h⟩
  · exact ⟨s, h⟩

/-! ## Comparisons with integers -/

theorem apply_mul (s : Sign) (n k : Int) : s.apply (n * k) = s.apply n * k := by
  cases s with
  | positive => rfl
  | negative => exact (Int.neg_mul n k).symm

theorem apply_apply (s : Sign) (n : Int) : s.apply (s.apply n) = n := by
  cases s with
  | positive => rfl
  | negative => exact Int.neg_neg n

/-- **An integer and a defined float are equal in a comparison if the float is that very integer.** -/
theorem compareInt_eq_iff {i : Int} :
    compareInt i x = .eq ↔ isIntegral x = true ∧ truncated x = i := by
  cases hf : isFinite x with
  | false =>
    rw [compareInt, isIntegral, hf]
    cases isNegative x <;> simp
  | true =>
    have hsign : (if isNegative x then -(mantissa x : Int) else mantissa x) =
        (signOf x).apply (mantissa x) := by
      rw [signOf]
      cases isNegative x <;> rfl
    rw [compareInt, if_pos hf, isIntegral, hf, Bool.true_and, truncated_eq, truncatedMagnitude]
    dsimp only
    rw [hsign]
    by_cases hq : 0 ≤ exponent x
    · rw [if_pos hq, if_pos hq, Int.compare_eq_eq, decide_eq_true hq, Bool.true_or, Int.natCast_mul,
        apply_mul, Int.natCast_pow, eq_comm]
      exact ⟨fun h => ⟨rfl, h⟩, fun h => h.2⟩
    · rw [if_neg hq, if_neg hq, Int.compare_eq_eq, decide_eq_false hq, Bool.false_or, beq_iff_eq]
      generalize hp : 2 ^ (-exponent x).toNat = p
      have hpos : 0 < p := hp ▸ Nat.two_pow_pos _
      have hcast : (2 : Int) ^ (-exponent x).toNat = p := by rw [← hp, Int.natCast_pow]; rfl
      rw [hcast]
      constructor
      · intro h
        have hdvd : p ∣ mantissa x := by
          have hm : (mantissa x : Int) = (signOf x).apply i * p := by
            rw [← apply_mul, h, apply_apply]
          exact Int.natCast_dvd_natCast.1 ⟨_, hm.trans (Int.mul_comm ..)⟩
        obtain ⟨n, hn⟩ := hdvd
        rw [hn, Int.natCast_mul, Int.mul_comm p, apply_mul] at h
        rw [hn, Nat.mul_mod_right, Nat.mul_div_cancel_left n hpos]
        exact ⟨rfl, (Int.eq_of_mul_eq_mul_right (by omega) h).symm⟩
      · rintro ⟨hmod, rfl⟩
        obtain ⟨n, hn⟩ := Nat.dvd_of_mod_eq_zero hmod
        rw [hn, Nat.mul_div_cancel_left n hpos, Int.natCast_mul, Int.mul_comm p, apply_mul]

/-! ## Floats that are held as integers -/

theorem unpack_abs (h : IsNormal m q) {s : Sign} (hx : x.toModel.unpack = .finite s m q h.pos) :
    x.abs.toModel.unpack = .finite .positive m q h.pos := by
  change (Float.Model.pack (UnpackedFloat.abs x.toModel.unpack)).unpack = _
  rw [hx]
  exact unpack_pack h .positive

theorem abs_lt_iff (h : IsNormal m q) {s : Sign} (hx : x.toModel.unpack = .finite s m q h.pos) :
    x.abs < Float.ofNat (2 ^ 63) ↔ q < 11 := by
  have hbound : (Float.ofNat (2 ^ 63)).toModel.unpack = .finite .positive (2 ^ 52) 11 (by decide) := by
    rfl
  rw [lt_iff, unpack_abs h hx, hbound, UnpackedFloat.compare, Option.some.injEq, Ordering.then_eq_lt,
    Int.compare_eq_lt, Nat.compare_eq_lt]
  have := h.full
  omega

/-- An integral float that is no zero has a full mantissa. -/
theorem unpack_isIntegral (hi : isIntegral x = true) (hz : ¬ IsZero x) :
    ∃ h : IsNormal (mantissa x) (exponent x),
      x.toModel.unpack = .finite (signOf x) (mantissa x) (exponent x) h.pos := by
  refine unpack_eq (Bool.and_eq_true .. ▸ hi : _ ∧ _).1 fun he => hz ?_
  by_cases hs : x.toBits = Double.signBit
  · exact .inr (by rw [← hs, Float.ofBits_toBits])
  · exact .inl (eq_zero_of_isIntegral hi he hs)

/-- A zero is an integer of no magnitude. -/
theorem isIntegral_of_isZero (hx : IsZero x) : isIntegral x = true ∧ truncatedMagnitude x = 0 := by
  obtain ⟨hfinite, hm⟩ : isFinite x = true ∧ mantissa x = 0 := by obtain rfl | rfl := hx <;> decide
  exact ⟨by simp [isIntegral, hfinite, hm], truncatedMagnitude_eq_zero hm⟩

theorem framesAsInt_of_isZero (hx : IsZero x) : framesAsInt x = true := by
  have hsmall : x.abs < Float.ofNat (2 ^ 63) := by obtain rfl | rfl := hx <;> decide
  rw [framesAsInt, (isIntegral_of_isZero hx).1, decide_eq_true hsmall]
  rfl

/-- **A float is framed as an integer if it is one that is less than `2 ^ 63`.** -/
theorem framesAsInt_iff :
    framesAsInt x = true ↔ isIntegral x = true ∧ truncatedMagnitude x < 2 ^ 63 := by
  by_cases hz : IsZero x
  · obtain ⟨hi, hmagnitude⟩ := isIntegral_of_isZero hz
    exact iff_of_true (framesAsInt_of_isZero hz) ⟨hi, hmagnitude ▸ Nat.two_pow_pos 63⟩
  rw [framesAsInt, Bool.and_eq_true, decide_eq_true_iff]
  refine and_congr_right fun hi => ?_
  obtain ⟨h, hx⟩ := unpack_isIntegral hi hz
  rw [abs_lt_iff h hx]
  have hmagnitude := truncatedMagnitude_eq hi
  obtain ⟨hfull, hfits, -, -⟩ := h
  split at hmagnitude
  · rename_i hq
    rw [hmagnitude]
    obtain ⟨k, hk⟩ := Int.eq_ofNat_of_zero_le hq
    rw [hk, Int.toNat_natCast]
    constructor
    · intro hlt
      have hle : 2 ^ k ≤ 2 ^ 10 := Nat.pow_le_pow_right (by decide) (by omega)
      exact Nat.lt_of_lt_of_le (Nat.mul_lt_mul_of_lt_of_le hfits hle (by decide)) (by decide)
    · intro hlt
      refine Int.lt_of_not_ge fun hge => ?_
      have hle : 2 ^ 11 ≤ 2 ^ k := Nat.pow_le_pow_right (by decide) (by omega)
      have := Nat.mul_le_mul hfull hle
      omega
  · have := Nat.le_mul_of_pos_right (truncatedMagnitude x) (Nat.two_pow_pos (-exponent x).toNat)
    exact iff_of_true (by omega) (by omega)

theorem natAbs_truncated (x : Float) : (truncated x).natAbs = truncatedMagnitude x := by
  rw [truncated]
  split <;> omega

/-- A float that is framed as an integer is that integer. -/
theorem toInt_toInt64 (hx : framesAsInt x = true) : (toInt64 x).toInt = truncated x := by
  obtain ⟨hi, hlt⟩ := framesAsInt_iff.1 hx
  have habs := natAbs_truncated x
  have hmin : Int64.minValue.toInt = -2 ^ 63 := by decide
  have hmax : Int64.maxValue.toInt = 2 ^ 63 - 1 := by decide
  rw [toInt64_eq (Bool.and_eq_true .. ▸ hi : _ ∧ _).1,
    Int64.toInt_ofIntClamp (by omega) (by omega)]

theorem compareInt_framed (hx : framesAsInt x = true) {i : Int64} :
    compareInt i.toInt x = .eq ↔ toInt64 x = i := by
  rw [compareInt_eq_iff, ← toInt_toInt64 hx, Int64.toInt_inj]
  exact and_iff_right (framesAsInt_iff.1 hx).1

/-- The least integer, as a float. -/
def least : Float := .ofBits 0xC3E0000000000000

theorem floatOfInt_minValue : floatOfInt Int64.minValue = least :=
  floatOfInt_eq (by rfl) (by decide) (by rfl)

/-- The one integer that equals a float which is not framed as an integer is the least one. -/
theorem compareInt_unframed (hx : framesAsInt x = false) {i : Int64} :
    compareInt i.toInt x = .eq ↔ i = Int64.minValue ∧ x = least := by
  rw [compareInt_eq_iff]
  constructor
  · rintro ⟨hi, htruncated⟩
    have hge : ¬ truncatedMagnitude x < 2 ^ 63 := fun hlt => by
      rw [framesAsInt_iff.2 ⟨hi, hlt⟩] at hx
      cases hx
    have hz : x.toBits ≠ Double.signBit := fun hz => by
      obtain rfl : x = .ofBits Double.signBit := by rw [← hz, Float.ofBits_toBits]
      exact hge ((isIntegral_of_isZero (.inr rfl)).2 ▸ Nat.two_pow_pos 63)
    have hmin : i = Int64.minValue := by
      have hle := i.le_toInt
      have hlt := i.toInt_lt
      have habs := natAbs_truncated x
      exact Int64.toInt_inj.1 (show i.toInt = -2 ^ 63 by omega)
    have hfloat := floatOfInt_eq hi hz htruncated.symm
    subst hmin
    exact ⟨rfl, hfloat.symm.trans floatOfInt_minValue⟩
  · rintro ⟨rfl, rfl⟩
    exact ⟨by rfl, by rfl⟩

/-- A float that is held as an integer is the float of that integer, unless it is the zero with a
sign. -/
theorem floatOfInt_of_framed (hx : framesAsInt x = true) :
    x = .ofBits Double.signBit ∨ floatOfInt (toInt64 x) = x := by
  by_cases hz : x.toBits = Double.signBit
  · exact .inl (by rw [← hz, Float.ofBits_toBits])
  · exact .inr (floatOfInt_eq (framesAsInt_iff.1 hx).1 hz (toInt_toInt64 hx))

theorem isNaN_of_framed (hx : framesAsInt x = true) : x.isNaN = false :=
  isNaN_eq_false (Bool.and_eq_true .. ▸ (framesAsInt_iff.1 hx).1 : _ ∧ _).1

theorem toInt64_of_isZero (hx : IsZero x) : toInt64 x = 0 := by
  refine Int64.toInt_inj.1 ((toInt_toInt64 (framesAsInt_of_isZero hx)).trans ?_)
  rw [truncated_eq, (isIntegral_of_isZero hx).2]
  cases signOf x <;> rfl

theorem compareInt_zero : compareInt 0 x = .eq ↔ IsZero x := by
  rw [compareInt_eq_iff]
  constructor
  · rintro ⟨hi, htruncated⟩
    by_cases hsign : x.toBits = Double.signBit
    · exact .inr (by rw [← hsign, Float.ofBits_toBits])
    · exact .inl (floatOfInt_eq hi hsign (i := 0) htruncated.symm).symm
  · intro hx
    obtain ⟨hi, hmagnitude⟩ := isIntegral_of_isZero hx
    exact ⟨hi, Int.natAbs_eq_zero.1 ((natAbs_truncated x).trans hmagnitude)⟩

/-- A float that is held as an integer equals the float of it, also if it is the zero with a sign. -/
theorem compareFloat_toInt64 (hx : framesAsInt x = true) :
    compareFloat (floatOfInt (toInt64 x)) x = .eq := by
  obtain rfl | h := floatOfInt_of_framed hx
  · rw [toInt64_of_isZero (.inr rfl)]
    rfl
  · exact compareFloat_eq_iff.2 (.inl h)

/-- **Floats that are held as integers are equal in a comparison if they are held as the same one.** -/
theorem compareFloat_framed (hx : framesAsInt x = true) (hy : framesAsInt y = true) :
    compareFloat x y = .eq ↔ toInt64 x = toInt64 y := by
  have hminus : toInt64 (.ofBits Double.signBit) = 0 := toInt64_of_isZero (.inr rfl)
  have hzero : floatOfInt 0 = .ofBits 0 := rfl
  rw [compareFloat_eq_iff]
  constructor
  · rintro (rfl | ⟨hx0, hy0⟩ | ⟨hnx, -⟩)
    · rfl
    · rw [toInt64_of_isZero hx0, toInt64_of_isZero hy0]
    · rw [isNaN_of_framed hx] at hnx
      cases hnx
  · intro h
    obtain rfl | hx := floatOfInt_of_framed hx
    · obtain rfl | hy := floatOfInt_of_framed hy
      · exact .inl rfl
      · rw [← h, hminus, hzero] at hy
        exact .inr (.inl ⟨.inr rfl, .inl hy.symm⟩)
    · obtain rfl | hy := floatOfInt_of_framed hy
      · rw [h, hminus, hzero] at hx
        exact .inr (.inl ⟨.inl hx.symm, .inr rfl⟩)
      · exact .inl (by rw [← hx, h, hy])

/-- Beyond the floats that are held as integers, there is no second zero. -/
theorem compareFloat_unframed (hx : framesAsInt x = false) :
    compareFloat x y = .eq ↔ x = y ∨ x.isNaN = true ∧ y.isNaN = true := by
  rw [compareFloat_eq_iff]
  refine or_congr_right (or_iff_right fun hz => ?_)
  rw [framesAsInt_of_isZero hz.1] at hx
  cases hx

theorem compareFloat_framed_unframed (hx : framesAsInt x = true) (hy : framesAsInt y = false) :
    compareFloat x y ≠ .eq := by
  rw [Ne, compareFloat_comm, compareFloat_unframed hy]
  rintro (rfl | ⟨-, hnx⟩)
  · rw [hx] at hy
    cases hy
  · rw [isNaN_of_framed hx] at hnx
    cases hnx

/-! ## The floats of integers -/

/-- **The float of an integer is held as one**, but for the powers of two at the ends of the range. -/
theorem framesAsInt_floatOfInt (i : Int64) : framesAsInt (floatOfInt i) = true ∨
    floatOfInt i = .ofBits 0x43E0000000000000 ∨ floatOfInt i = least := by
  by_cases h0 : i = 0
  · subst h0
    exact .inl (framesAsInt_of_isZero (.inl rfl))
  by_cases hmin : i = Int64.minValue
  · subst hmin
    exact .inr (.inr floatOfInt_minValue)
  obtain ⟨s, m, q, h, hmodel, hwhole, hsize, -⟩ := unpack_floatOfInt h0
  have hlog : i.toInt.natAbs.log2 < 63 := by
    have hne : i.toInt ≠ 0 := fun h => h0 (Int64.toInt_inj.1 h)
    have hlow : i.toInt ≠ -2 ^ 63 := fun h => hmin (Int64.toInt_inj.1 h)
    have := i.toInt_lt
    have := i.le_toInt
    exact (Nat.log2_lt (by omega)).2 (by omega)
  by_cases hq : q < 11
  · obtain ⟨hf, hm, hexp⟩ := fields_eq h hmodel
    have hi : isIntegral (floatOfInt i) = true := by
      rw [isIntegral, hf, hm, hexp, Bool.true_and, Bool.or_eq_true, decide_eq_true_iff, beq_iff_eq]
      exact hwhole
    refine .inl ?_
    rw [framesAsInt, hi, Bool.true_and, decide_eq_true_iff]
    exact (abs_lt_iff h hmodel).2 hq
  · obtain ⟨rfl, rfl⟩ : q = 11 ∧ m = 2 ^ 52 := by
      rw [IsRounding] at hsize
      omega
    refine .inr ?_
    cases s with
    | positive => exact .inl (unpack_inj.1 (hmodel.trans (by rfl)))
    | negative => exact .inr (unpack_inj.1 (hmodel.trans (by rfl)))

theorem eq_zero_of_isZero {i : Int64} (h : IsZero (floatOfInt i)) : i = 0 := by
  by_contra h0
  obtain ⟨s, m, q, hnormal, hmodel, -⟩ := unpack_floatOfInt h0
  obtain ⟨t, ht⟩ := isZero_iff.1 h
  rw [hmodel] at ht
  cases ht

/-- The float of an integer, where it is not held as one, has another word than the integer. -/
theorem toBits_floatOfInt_ne {i : Int64} (h : framesAsInt (floatOfInt i) = false) :
    (floatOfInt i).toBits ≠ i.toUInt64 := by
  have other (w : UInt64) (hw : (Float.ofBits w).toBits = w)
      (hne : floatOfInt w.toInt64 ≠ .ofBits w) (hf : floatOfInt i = .ofBits w) :
      (floatOfInt i).toBits ≠ i.toUInt64 := by
    rw [hf, hw]
    rintro rfl
    exact hne (by rw [Int64.toInt64_toUInt64, hf])
  obtain hframed | hf | hf := framesAsInt_floatOfInt i
  · rw [h] at hframed
    cases hframed
  · exact other _ rfl (by decide) hf
  · exact other _ rfl (by decide) hf

end LazyQuery.Binary
