import LazyQuery.Proofs.Scalar.Equality
import LazyQuery.Summary.Describe

/-!
# Places of quantiles

A quantile is read at two neighbouring places of the sorted values. Which ones is computed with floats: the
last place becomes a float, and that is multiplied with a fraction. Both steps round, possibly upwards, but
by so little (`Binary.rounded_le`) that of at most three quarters of the last place less is left than the
last place (`Binary.truncatedMagnitude_mul_lt`). So there is always a place behind the first one.
-/

set_option autoImplicit false

namespace LazyQuery.Binary

open Float.Model Float.Model.Format Float.Model.UnpackedFloat

variable {m n k : Nat} {q e : Int}

/-! ## Rounding upwards -/

/-- A mantissa is rounded up by at most one unit in its last place. -/
theorem significand_mul_le (h : n ≠ 0) : significand n * 2 ^ n.log2 ≤ n * (2 ^ 52 + 1) := by
  have hmantissa : significand n ≤ n * 2 ^ 52 / 2 ^ n.log2 + 1 := by
    rw [significand]
    rcases roundedMantissa_cases (ExtendedMantissa.mk (n * 2 ^ 52) false false >>> n.log2) with hr | hr <;>
      rw [hr, mantissa_shiftRight]
    exact Nat.le_succ _
  calc significand n * 2 ^ n.log2
      ≤ (n * 2 ^ 52 / 2 ^ n.log2 + 1) * 2 ^ n.log2 := Nat.mul_le_mul_right _ hmantissa
    _ = n * 2 ^ 52 / 2 ^ n.log2 * 2 ^ n.log2 + 2 ^ n.log2 := by rw [Nat.add_mul, Nat.one_mul]
    _ ≤ n * 2 ^ 52 + n := Nat.add_le_add (Nat.div_mul_le_self _ _) (Nat.log2_self_le h)
    _ = n * (2 ^ 52 + 1) := by rw [Nat.mul_add, Nat.mul_one]

/-- A number that is rounded to a full mantissa grows by one part in `2 ^ 52` at most. -/
theorem rounded_le (h : n ≠ 0)
    (hround : q = n.log2 + e - 52 ∧ m = significand n ∨
      q = n.log2 + e - 51 ∧ m = 2 ^ 52 ∧ significand n = 2 ^ 53) :
    (m : ℚ) * 2 ^ q ≤ n * 2 ^ e * (1 + 1 / 2 ^ 52) := by
  have hvalue : (m : ℚ) * 2 ^ q = (significand n * 2 ^ n.log2 : ℕ) * 2 ^ (e - 52) := by
    have hpow : (2 : ℚ) ^ (n.log2 + e - 52) = 2 ^ n.log2 * 2 ^ (e - 52) := by
      rw [add_sub_assoc, zpow_add₀ two_ne_zero, zpow_natCast]
    rcases hround with ⟨rfl, rfl⟩ | ⟨rfl, rfl, hsig⟩
    · rw [hpow, Nat.cast_mul, Nat.cast_pow, Nat.cast_ofNat, mul_assoc]
    · rw [show (n.log2 + e - 51 : Int) = n.log2 + e - 52 + 1 by omega, zpow_add₀ two_ne_zero, hpow, hsig]
      push_cast
      ring
  rw [hvalue]
  calc ((significand n * 2 ^ n.log2 : ℕ) : ℚ) * 2 ^ (e - 52)
      ≤ (n * (2 ^ 52 + 1) : ℕ) * 2 ^ (e - 52) :=
        mul_le_mul_of_nonneg_right (Nat.cast_le.2 (significand_mul_le h)) (by positivity)
    _ = n * 2 ^ e * (1 + 1 / 2 ^ 52) := by
        rw [zpow_sub₀ two_ne_zero]
        push_cast
        field_simp
        norm_num

/-! ## Parts of a number -/

/-- What is left of a float without its fraction is no more than the float. -/
theorem truncatedMagnitude_le {x : Float} (h : IsNormal m q)
    (hx : x.toModel.unpack = .finite .positive m q h.pos) : (truncatedMagnitude x : ℚ) ≤ m * 2 ^ q := by
  obtain ⟨-, hmantissa, hexponent⟩ := fields_eq h hx
  rw [truncatedMagnitude, hmantissa, hexponent]
  split
  · rename_i hq
    obtain ⟨j, rfl⟩ := Int.eq_ofNat_of_zero_le hq
    rw [Int.toNat_natCast, Nat.cast_mul, zpow_natCast, Nat.cast_pow, Nat.cast_ofNat]
  · rename_i hq
    obtain ⟨j, hj⟩ := Int.eq_ofNat_of_zero_le (show 0 ≤ -q by omega)
    obtain rfl : q = -(j : Int) := by omega
    rw [hj, Int.toNat_natCast, zpow_neg, zpow_natCast, ← div_eq_mul_inv]
    exact_mod_cast Nat.cast_div_le (m := m) (n := 2 ^ j) (α := ℚ)

/-- The float is a fraction between an eighth and three quarters. -/
def IsQuartile (x : Float) : Prop :=
  ∃ (m : Nat) (q : Int) (h : IsNormal m q), x.toModel.unpack = .finite .positive m q h.pos ∧
    m ≤ 3 * 2 ^ 51 ∧ -54 ≤ q ∧ q ≤ -53

theorem isQuartile_quarter : IsQuartile 0.25 :=
  ⟨2 ^ 52, -54, ⟨by decide, by decide, by decide, by decide⟩, rfl, by decide, by decide, by decide⟩

theorem isQuartile_half : IsQuartile 0.5 :=
  ⟨2 ^ 52, -53, ⟨by decide, by decide, by decide, by decide⟩, rfl, by decide, by decide, by decide⟩

theorem isQuartile_threeQuarters : IsQuartile 0.75 :=
  ⟨3 * 2 ^ 51, -53, ⟨by decide, by decide, by decide, by decide⟩, rfl, by decide, by decide, by decide⟩

/-- The product of two numbers is rounded like any other number. -/
theorem unpack_mul {x y : Float} {m m' : Nat} {q q' : Int} (h : IsNormal m q) (h' : IsNormal m' q')
    (hx : x.toModel.unpack = .finite .positive m q h.pos)
    (hy : y.toModel.unpack = .finite .positive m' q' h'.pos) (hleast : -1074 ≤ q + q')
    (hgreatest : q + q' ≤ 916) : ∃ (m'' : Nat) (q'' : Int) (h'' : IsNormal m'' q''),
      (x * y).toModel.unpack = .finite .positive m'' q'' h''.pos ∧
        (m'' : ℚ) * 2 ^ q'' ≤ (m * m' : ℕ) * 2 ^ (q + q') * (1 + 1 / 2 ^ 52) := by
  have hne : m * m' ≠ 0 := Nat.ne_of_gt (Nat.mul_pos h.pos h'.pos)
  have hfull : 2 ^ 52 ≤ m * m' := Nat.le_trans h.full (Nat.le_mul_of_pos_right m h'.pos)
  have hlog : (m * m').log2 < 106 := by
    rw [Nat.log2_lt hne]
    calc m * m' < 2 ^ 53 * 2 ^ 53 := Nat.mul_lt_mul'' h.fits h'.fits
      _ = 2 ^ 106 := by norm_num
  obtain ⟨m'', q'', h'', hround, hsize⟩ := round_normal hfull hleast (by omega) .positive
  refine ⟨m'', q'', h'', ?_, rounded_le hne hsize⟩
  have hmul : (x * y).toModel = .pack (x.toModel.unpack.mul binary64 y.toModel.unpack) := rfl
  have hsign : Sign.positive * Sign.positive = .positive := rfl
  rw [hmul, hx, hy, UnpackedFloat.mul, hsign, hround, unpack_pack h'']

/-- **At most three quarters of a number leave less than the number**, though they are rounded twice. -/
theorem truncatedMagnitude_mul_lt {x : Float} (hx : IsQuartile x) (h0 : 0 < k) (hk : k < 2 ^ 64) :
    truncatedMagnitude (x * Float.ofNat k) < k := by
  obtain ⟨m, q, h, hunpack, hm, hlow, hhigh⟩ := hx
  obtain ⟨m', q', h', hnat, -, hround⟩ := isNormal_ofNat h0 hk
  have hlog : k.log2 < 64 := (Nat.log2_lt (Nat.ne_of_gt h0)).2 hk
  have hsize : -52 ≤ q' ∧ q' ≤ 12 := by
    rw [IsRounding] at hround
    omega
  have hnumber : (Float.ofNat k).toModel.unpack = .finite .positive m' q' h'.pos := by
    rw [hnat, unpack_pack h']
  obtain ⟨m'', q'', h'', hproduct, hle⟩ := unpack_mul h h' hunpack hnumber (by omega) (by omega)
  -- The number is rounded, and then the product: two errors of one part in `2 ^ 52` each.
  have hfraction : (m : ℚ) * 2 ^ q ≤ 3 / 4 := by
    calc (m : ℚ) * 2 ^ q ≤ (3 * 2 ^ 51 : ℕ) * 2 ^ (-53 : Int) :=
          mul_le_mul (Nat.cast_le.2 hm) (zpow_le_zpow_right₀ one_le_two hhigh) (by positivity)
            (by positivity)
      _ = 3 / 4 := by norm_num
  have hplace : (m' : ℚ) * 2 ^ q' ≤ k * (1 + 1 / 2 ^ 52) := by
    have := rounded_le (Nat.ne_of_gt h0) (e := 0) (by rw [add_zero]; exact hround)
    rwa [zpow_zero, mul_one] at this
  have hlt : (truncatedMagnitude (x * Float.ofNat k) : ℚ) < k := by
    calc (truncatedMagnitude (x * Float.ofNat k) : ℚ) ≤ m'' * 2 ^ q'' := truncatedMagnitude_le h'' hproduct
      _ ≤ (m * m' : ℕ) * 2 ^ (q + q') * (1 + 1 / 2 ^ 52) := hle
      _ = m * 2 ^ q * (m' * 2 ^ q') * (1 + 1 / 2 ^ 52) := by
        rw [Nat.cast_mul, zpow_add₀ two_ne_zero]
        ring
      _ ≤ 3 / 4 * (k * (1 + 1 / 2 ^ 52)) * (1 + 1 / 2 ^ 52) := by gcongr
      _ < k := by
        have hk0 : (0 : ℚ) < k := Nat.cast_pos.2 h0
        linarith
  exact Nat.cast_lt.1 hlt

theorem isZero_mul_zero {x : Float} (hx : IsQuartile x) : IsZero (x * Float.ofNat 0) := by
  obtain ⟨m, q, h, hunpack, -⟩ := hx
  have hmul : (x * Float.ofNat 0).toModel =
    .pack (x.toModel.unpack.mul binary64 (Float.ofNat 0).toModel.unpack) := rfl
  have hzero : (Float.ofNat 0).toModel.unpack = .zero .positive := rfl
  refine isZero_iff.2 ⟨.positive, ?_⟩
  rw [hmul, hunpack, hzero, UnpackedFloat.mul]
  rfl

end LazyQuery.Binary

namespace LazyQuery.Describe

open Binary

/-- The two places among sorted values that a quantile is read at. -/
def places (fraction : Float) (n : Nat) : Nat × Nat :=
  let position := fraction * Float.ofNat (n - 1)
  let lo := truncatedMagnitude position
  (lo, if isIntegral position then lo else lo + 1)

/-- **A quartile is read at places that are there**, as long as the values are counted in a word. -/
theorem places_lt {fraction : Float} {n : Nat} (hx : IsQuartile fraction) (h0 : 0 < n) (hn : n < 2 ^ 64) :
    (places fraction n).1 < n ∧ (places fraction n).2 < n := by
  obtain rfl | hpos : n = 1 ∨ 0 < n - 1 := by omega
  · obtain ⟨hwhole, hzero⟩ := isIntegral_of_isZero (isZero_mul_zero hx)
    rw [places, hzero, hwhole]
    decide
  · have hlt := truncatedMagnitude_mul_lt hx hpos (by omega)
    rw [places]
    constructor <;> dsimp only
    · omega
    · split <;> omega

end LazyQuery.Describe
