import LazyQuery.Decimal.Binary
import LazyQuery.Scalar.Basic
import Mathlib

/-!
# Floats that are integers

An integral float within the range of 64-bit integers is the float of its integer
(`Binary.floatOfInt_toInt64`), so that nothing is lost where it is kept as an integer. The zero with a
sign is the exception; no integer becomes it (`Binary.floatOfInt_defined`).

A float with a full mantissa is *normal*: it is what its fields say (`Binary.unpack_eq`), and it is
packed and unpacked without loss (`Binary.unpack_pack`). The float of an integer comes from rounding,
which yields normal floats (`Binary.round_normal`) and leaves those alone that are normal already
(`Binary.round_exact`).

There is one undefined float (`Binary.eq_of_isNaN`) but many words of it. As floats, results are what
floats make of them (`Double.value_ofResult`). How floats are packed into words is known to no module of the
library, but to the whole of it only.
-/

set_option autoImplicit false

namespace LazyQuery.Binary

open Float.Model Float.Model.Format Float.Model.UnpackedFloat

/-- The mantissa and the exponent of a float that is neither zero nor too small for a full mantissa. -/
structure IsNormal (m : Nat) (q : Int) : Prop where
  full : 2 ^ 52 ≤ m
  fits : m < 2 ^ 53
  least : -1074 ≤ q
  greatest : q ≤ 971

variable {m k : Nat} {q e : Int}

theorem IsNormal.pos (h : IsNormal m q) : 0 < m := Nat.lt_of_lt_of_le (by decide) h.full

theorem IsNormal.log2 (h : IsNormal m q) : m.log2 = 52 :=
  (Nat.log2_eq_iff (Nat.ne_of_gt h.pos)).2 ⟨h.full, h.fits⟩

/-! ## Rounding -/

theorem shiftRight_succ (em : ExtendedMantissa) (k : Nat) :
    em >>> (k + 1) = (em >>> k).shiftRightOne := rfl

theorem mantissa_shiftRight (em : ExtendedMantissa) (k : Nat) :
    (em >>> k).mantissa = em.mantissa / 2 ^ k := by
  induction k with
  | zero => exact (Nat.div_one _).symm
  | succ k ih =>
    rw [shiftRight_succ, ExtendedMantissa.shiftRightOne, ih, Nat.div_div_eq_div_mul, Nat.pow_succ]

/-- Zeros that are shifted out leave no trace. -/
theorem shiftRight_exact (m k : Nat) :
    ExtendedMantissa.mk (m * 2 ^ k) false false >>> k = ⟨m, false, false⟩ := by
  induction k generalizing m with
  | zero =>
    rw [Nat.pow_zero, Nat.mul_one]
    rfl
  | succ k ih =>
    rw [shiftRight_succ, Nat.pow_succ', ← Nat.mul_assoc, ih, ExtendedMantissa.shiftRightOne]
    simp

theorem shiftRight_add (em : ExtendedMantissa) (j k : Nat) : em >>> (j + k) = em >>> j >>> k := by
  induction k with
  | zero => rfl
  | succ k ih => rw [← Nat.add_assoc, shiftRight_succ, shiftRight_succ, ih]

theorem shiftRight_zeros (m j k : Nat) :
    ExtendedMantissa.mk (m * 2 ^ j) false false >>> (j + k) =
      ExtendedMantissa.mk m false false >>> k := by
  rw [shiftRight_add, shiftRight_exact]

theorem targetExponent_eq (m : Nat) (e : Int) :
    binary64.targetExponent (totalExponent m e) = max (m.log2 + e - 52) (-1074) := by
  rw [targetExponent, totalExponent]
  simp only [mantissaBits, minExponent]
  omega

theorem log2_mul_two_pow (h : m ≠ 0) (k : Nat) : (m * 2 ^ k).log2 = m.log2 + k := by
  rw [Nat.log2_eq_iff (Nat.mul_ne_zero h (Nat.ne_of_gt (Nat.two_pow_pos k)))]
  constructor
  · rw [Nat.pow_add]
    exact Nat.mul_le_mul_right _ (Nat.log2_self_le h)
  · rw [Nat.add_right_comm, Nat.pow_add]
    exact Nat.mul_lt_mul_of_pos_right Nat.lt_log2_self (Nat.two_pow_pos k)

/-- The full mantissa that a number is rounded to. It is too long by one where the number is rounded up
to the next power of two. -/
def significand (n : Nat) : Nat :=
  (ExtendedMantissa.mk (n * 2 ^ 52) false false >>> n.log2).roundedMantissa

/-- Zeros at the end of a number make no difference. -/
theorem significand_mul_two_pow (h : m ≠ 0) (k : Nat) : significand (m * 2 ^ k) = significand m := by
  rw [significand, log2_mul_two_pow h, Nat.mul_right_comm, Nat.add_comm, shiftRight_zeros, significand]

theorem significand_long (h : m.log2 = 52 + k) :
    significand m = (ExtendedMantissa.mk m false false >>> k).roundedMantissa := by
  rw [significand, h, shiftRight_zeros]

theorem significand_short (h : m.log2 ≤ 52) : significand m = m * 2 ^ (52 - m.log2) := by
  have hscaled : m * 2 ^ 52 = m * 2 ^ (52 - m.log2) * 2 ^ m.log2 := by
    rw [Nat.mul_assoc, ← Nat.pow_add, Nat.sub_add_cancel h]
  rw [significand, hscaled, shiftRight_exact]
  rfl

/-- A mantissa that is made longer by zeros is cut down to its full length. -/
theorem shiftToTarget_exact (h : IsNormal m q) (k : Nat) :
    shiftToTargetExponent binary64 (m * 2 ^ k) (q - k) .exact = (⟨m, false, false⟩, q) := by
  have hlog : (m * 2 ^ k).log2 = 52 + k := by rw [log2_mul_two_pow (Nat.ne_of_gt h.pos), h.log2]
  have hshift : (binary64.targetExponent (totalExponent (m * 2 ^ k) (q - k)) - (q - k)).toNat = k := by
    rw [targetExponent_eq, hlog]
    have := h.least
    omega
  rw [shiftToTargetExponent, shiftToExponent, hshift]
  exact Prod.ext (shiftRight_exact m k) (Int.sub_add_cancel q k)

/-- Rounding cuts a mantissa down twice, as it can have become longer. -/
theorem round_eq {s : Sign} {em em' : ExtendedMantissa} {e e₁ e₂ : Int}
    (h : shiftToTargetExponent binary64 m e .exact = (em, e₁))
    (h' : shiftToTargetExponent binary64 em.roundedMantissa e₁ .exact = (em', e₂))
    (hpos : 0 < em'.mantissa) :
    roundWithAccuracy binary64 s m e .exact = .finite s em'.mantissa e₂ hpos := by
  simp only [roundWithAccuracy, h, h']
  exact dif_neg (Nat.ne_of_gt hpos)

/-- **A number that is a float is rounded to itself.** -/
theorem round_exact (h : IsNormal m q) (s : Sign) (k : Nat) :
    roundWithAccuracy binary64 s (m * 2 ^ k) (q - k) .exact = .finite s m q h.pos := by
  have hagain := shiftToTarget_exact h 0
  rw [Nat.pow_zero, Nat.mul_one, Int.natCast_zero, Int.sub_zero] at hagain
  exact round_eq (shiftToTarget_exact h k) hagain h.pos

theorem roundedMantissa_cases (em : ExtendedMantissa) :
    em.roundedMantissa = em.mantissa ∨ em.roundedMantissa = em.mantissa + 1 := by
  obtain ⟨m, r, s⟩ := em
  cases r <;> cases s <;>
    simp only [ExtendedMantissa.roundedMantissa, ExtendedMantissa.accuracy,
      Accuracy.roundToNearestEven, true_or, or_true]
  omega

/-- **A number with a long mantissa is rounded to a float with a full one.** It keeps its exponent,
unless it is rounded up to the next power of two. -/
theorem round_normal (hm : 2 ^ 52 ≤ m) (he : -1074 ≤ e) (hsize : m.log2 + e ≤ 1022) (s : Sign) :
    ∃ (m' : Nat) (q : Int) (h : IsNormal m' q),
      roundWithAccuracy binary64 s m e .exact = .finite s m' q h.pos ∧
        (q = m.log2 + e - 52 ∧ m' = significand m ∨
          q = m.log2 + e - 51 ∧ m' = 2 ^ 52 ∧ significand m = 2 ^ 53) := by
  have hne : m ≠ 0 := by
    rintro rfl
    exact absurd hm (by decide)
  have hlog : 52 ≤ m.log2 := (Nat.le_log2 hne).2 hm
  -- The mantissa that is left of the first cut is full.
  obtain ⟨k, hk⟩ := Nat.exists_eq_add_of_le hlog
  have hshift : (binary64.targetExponent (totalExponent m e) - e).toNat = k := by
    rw [targetExponent_eq]
    omega
  let em := ExtendedMantissa.mk m false false >>> k
  have hsignificand : significand m = em.roundedMantissa := significand_long hk
  have hfirst : shiftToTargetExponent binary64 m e .exact = (em, e + k) := by
    rw [shiftToTargetExponent, shiftToExponent, hshift]
    rfl
  have hem : em.mantissa = m / 2 ^ k := mantissa_shiftRight _ k
  have hfull : 2 ^ 52 ≤ em.mantissa := by
    rw [hem, Nat.le_div_iff_mul_le (Nat.two_pow_pos k), ← Nat.pow_add, ← hk]
    exact Nat.log2_self_le hne
  have hfits : em.mantissa < 2 ^ 53 := by
    rw [hem, Nat.div_lt_iff_lt_mul (Nat.two_pow_pos k), ← Nat.pow_add, Nat.add_right_comm 52 1 k, ← hk]
    exact Nat.lt_log2_self
  by_cases hover : em.roundedMantissa = 2 ^ 53
  · have h : IsNormal (2 ^ 52) (e + k + 1) := ⟨Nat.le_refl _, by decide, by omega, by omega⟩
    have hlast := shiftToTarget_exact h 1
    rw [Int.natCast_one, Int.add_sub_cancel, show 2 ^ 52 * 2 ^ 1 = em.roundedMantissa from hover.symm]
      at hlast
    exact ⟨_, _, h, round_eq hfirst hlast h.pos, .inr ⟨by omega, rfl, hsignificand.trans hover⟩⟩
  · have h : IsNormal em.roundedMantissa (e + k) := by
      rcases roundedMantissa_cases em with hr | hr
      · exact ⟨hr ▸ hfull, hr ▸ hfits, by omega, by omega⟩
      · exact ⟨by omega, by omega, by omega, by omega⟩
    have hlast := shiftToTarget_exact h 0
    rw [Nat.pow_zero, Nat.mul_one, Int.natCast_zero, Int.sub_zero] at hlast
    exact ⟨_, _, h, round_eq hfirst hlast h.pos, .inl ⟨by omega, hsignificand.symm⟩⟩

/-! ## Bits -/

/-- What is packed of a float is found again. -/
theorem unpack_pack (h : IsNormal m q) (s : Sign) :
    (Float.Model.pack (.finite s m q h.pos)).unpack = .finite s m q h.pos := by
  obtain ⟨hfull, hfits, hleast, hgreatest⟩ := id h
  obtain ⟨biased, hbiased⟩ := Int.eq_ofNat_of_zero_le (show 0 ≤ q + 1075 by omega)
  have hpack : UnpackedFloat.pack binary64 (.finite s m q h.pos) =
      packComponents binary64 s (BitVec.ofNat 11 biased) (BitVec.ofNat 52 m) := by
    have hsum : (q + binary64.exponentBias + binary64.mantissaBitsWithoutImplicit).toNat = biased := by
      change (q + (1023 : Int) + (52 : Int)).toNat = biased
      omega
    rw [UnpackedFloat.pack, hsum, h.log2, if_neg (by change ¬ 2 ^ 11 ≤ biased + 1; omega)]
    exact if_pos rfl
  have hexponent : (BitVec.ofNat 11 biased).toNat = biased := by
    rw [BitVec.toNat_ofNat, Nat.mod_eq_of_lt (by omega)]
  have hmantissa : (1#1 ++ BitVec.ofNat 52 m).toNat = m := by
    rw [BitVec.toNat_append, BitVec.toNat_ofNat, BitVec.toNat_ofNat,
      ← Nat.shiftLeft_add_eq_or_of_lt (Nat.mod_lt _ (by decide)), Nat.shiftLeft_eq]
    omega
  have hlast : BitVec.ofNat 11 biased ≠ -1#11 := by
    intro he
    have := congrArg BitVec.toNat he
    rw [hexponent] at this
    change biased = 2047 at this
    omega
  have hzero : BitVec.ofNat 11 biased ≠ 0#11 := by
    intro he
    have := congrArg BitVec.toNat he
    rw [hexponent] at this
    change biased = 0 at this
    omega
  rw [Float.Model.unpack, Float.Model.pack]
  change UnpackedFloat.unpack binary64 (UnpackedFloat.pack binary64 _) = _
  rw [hpack, UnpackedFloat.unpack]
  simp only [unpackExponent_packComponents, unpackMantissa_packComponents, unpackSign_packComponents,
    Sign.ofBitVec_toBitVec, hlast, hzero, if_false, hmantissa, hexponent]
  obtain rfl : q = biased - 1075 := by omega
  rfl

/-- The sign of a float. -/
def signOf (x : Float) : Sign := if isNegative x then .negative else .positive

theorem toNat_unpackExponent (x : Float) :
    (@unpackExponent binary64 x.toBits.toBitVec).toNat = exponentField x := by
  rw [unpackExponent_def, BitVec.extractLsb'_toNat, Nat.shiftRight_eq_div_pow]
  rfl

theorem unpackExponent_ne {x : Float} {n : Nat} (h : exponentField x ≠ n) (hn : n < 2 ^ 11) :
    @unpackExponent binary64 x.toBits.toBitVec ≠ BitVec.ofNat 11 n := by
  intro he
  have hfield := toNat_unpackExponent x
  rw [he, BitVec.toNat_ofNat, Nat.mod_eq_of_lt hn] at hfield
  exact h hfield.symm

theorem ofBitVec_unpackSign (x : Float) :
    Sign.ofBitVec (@unpackSign binary64 x.toBits.toBitVec) = signOf x := by
  have hbit : (@unpackSign binary64 x.toBits.toBitVec).toNat = x.toBits.toNat / 2 ^ 63 := by
    rw [unpackSign_def, BitVec.extractLsb'_toNat, Nat.shiftRight_eq_div_pow]
    exact Nat.mod_eq_of_lt ((Nat.div_lt_iff_lt_mul (by decide)).2 x.toBits.toNat_lt)
  have hiff : @unpackSign binary64 x.toBits.toBitVec = 0#1 ↔ isNegative x = false := by
    rw [← BitVec.toNat_inj, hbit, isNegative, decide_eq_false_iff_not]
    change _ = 0 ↔ _
    omega
  rw [Sign.ofBitVec, signOf]
  cases hx : isNegative x with
  | false => rw [if_pos (hiff.2 hx), if_neg Bool.false_ne_true]
  | true =>
    refine (if_neg fun h => ?_).trans (if_pos rfl).symm
    rw [hiff.1 h] at hx
    cases hx

/-- **A finite float with a full mantissa is what its fields say.** -/
theorem unpack_eq {x : Float} (hf : isFinite x = true) (he : exponentField x ≠ 0) :
    ∃ h : IsNormal (mantissa x) (exponent x),
      x.toModel.unpack = .finite (signOf x) (mantissa x) (exponent x) h.pos := by
  have hexp := toNat_unpackExponent x
  have hman : (1#1 ++ @unpackMantissa binary64 x.toBits.toBitVec).toNat = mantissa x := by
    rw [unpackMantissa_def, BitVec.toNat_append, ← Nat.shiftLeft_add_eq_or_of_lt (BitVec.isLt _),
      BitVec.extractLsb'_toNat, Nat.shiftLeft_eq, mantissa, if_neg he, Nat.add_comm]
    rfl
  have hsign := ofBitVec_unpackSign x
  have hfinite : exponentField x ≠ 2047 := by simpa [isFinite] using hf
  have hlt : exponentField x < 2048 := Nat.mod_lt _ (by decide)
  have hq : exponent x = exponentField x - 1075 := by rw [exponent, if_neg he]
  have h : IsNormal (mantissa x) (exponent x) := by
    have := Nat.mod_lt x.toBits.toNat (show 0 < 2 ^ 52 by decide)
    rw [hq, mantissa, if_neg he]
    exact ⟨by omega, by omega, by omega, by omega⟩
  refine ⟨h, ?_⟩
  have hlast : @unpackExponent binary64 x.toBits.toBitVec ≠ -1#11 :=
    unpackExponent_ne hfinite (by decide)
  have hzero : @unpackExponent binary64 x.toBits.toBitVec ≠ 0#11 := unpackExponent_ne he (by decide)
  change UnpackedFloat.unpack binary64 x.toBits.toBitVec = _
  rw [UnpackedFloat.unpack]
  simp only [hlast, hzero, if_false, hman, hexp, hsign, hq]
  rfl

/-- A float that is unpacked to a full mantissa has the fields of it. -/
theorem fields_eq {x : Float} {s : Sign} (h : IsNormal m q)
    (hx : x.toModel.unpack = .finite s m q h.pos) :
    isFinite x = true ∧ mantissa x = m ∧ exponent x = q := by
  have hfield := toNat_unpackExponent x
  have hunpack : UnpackedFloat.unpack binary64 x.toBits.toBitVec = .finite s m q h.pos := hx
  have hlast : exponentField x ≠ 2047 := by
    intro he
    have hvec : @unpackExponent binary64 x.toBits.toBitVec = -1#11 :=
      BitVec.eq_of_toNat_eq (hfield.trans he)
    rw [UnpackedFloat.unpack] at hunpack
    simp only [hvec, if_true] at hunpack
    split at hunpack <;> cases hunpack
  have hzero : exponentField x ≠ 0 := by
    intro he
    have hvec : @unpackExponent binary64 x.toBits.toBitVec = 0#11 :=
      BitVec.eq_of_toNat_eq (hfield.trans he)
    rw [UnpackedFloat.unpack] at hunpack
    simp only [hvec] at hunpack
    rw [if_neg (by decide), if_pos trivial] at hunpack
    split at hunpack
    · cases hunpack
    · injection hunpack with _ hm
      have := BitVec.isLt (@unpackMantissa binary64 x.toBits.toBitVec)
      rw [hm] at this
      exact absurd h.full (Nat.not_le_of_lt this)
  have hfinite : isFinite x = true := bne_iff_ne.2 hlast
  obtain ⟨_, hx'⟩ := unpack_eq hfinite hzero
  injection hx'.symm.trans hx with _ hm hq
  exact ⟨hfinite, hm, hq⟩

/-! ## Integers as floats -/

theorem toModel_ofNat_large {n : Nat} (hn : 2 ^ 53 ≤ n) : (Float.ofNat n).toModel =
    .pack (roundWithAccuracy binary64 .positive (n * 2 ^ 53) (-53) .exact) := by
  have h : ¬ (n < 2 ^ 53 ∧ 0 ≤ 22) := by omega
  have hne : n ≠ 0 := by omega
  have hof : Float.ofNat n = ⟨Float.Model.ofScientific n 0⟩ := dif_neg h
  have hlow : ¬ (0 : Int) < -((2 ^ 11 : Int) + n.log2) := by omega
  have hscale : UnpackedFloat.ofScientific binary64 n 0 =
      roundWithAccuracy binary64 .positive ((n <<< 53) * 10 ^ 0) (-53) .exact := by
    rw [UnpackedFloat.ofScientific, dif_neg hne, if_neg (by decide), if_neg hlow, if_pos (Int.le_refl 0)]
    rfl
  rw [hof, Float.Model.ofScientific, hscale, Nat.shiftLeft_eq, Nat.pow_zero, Nat.mul_one]

/-- One, the power of ten by which a small integer is multiplied. -/
theorem unpack_one : (Float.ofBits 0x3FF0000000000000).toModel.unpack =
    .finite .positive (2 ^ 52) (-52) (by decide) := by rfl

theorem toModel_ofNat_small {n : Nat} (h0 : 0 < n) (hn : n < 2 ^ 53) :
    ∃ h : IsNormal (n * 2 ^ (52 - n.log2)) (n.log2 - 52), (Float.ofNat n).toModel =
      .pack (.finite .positive (n * 2 ^ (52 - n.log2)) (n.log2 - 52) h.pos) := by
  have hne : n ≠ 0 := Nat.ne_of_gt h0
  have hlog : n.log2 < 53 := (Nat.log2_lt hne).2 hn
  have hfull : (n * 2 ^ (52 - n.log2)).log2 = 52 := by
    rw [log2_mul_two_pow hne]
    omega
  obtain ⟨hlower, hupper⟩ :=
    (Nat.log2_eq_iff (Nat.mul_ne_zero hne (Nat.ne_of_gt (Nat.two_pow_pos _)))).1 hfull
  have h : IsNormal (n * 2 ^ (52 - n.log2)) (n.log2 - 52) := ⟨hlower, hupper, by omega, by omega⟩
  refine ⟨h, ?_⟩
  have hof : Float.ofNat n = n.toUInt64.toFloat * .ofBits 0x3FF0000000000000 :=
    dif_pos (show n < 2 ^ 53 ∧ 0 ≤ 22 from ⟨hn, by omega⟩)
  have hexact := round_exact h .positive 0
  rw [Nat.pow_zero, Nat.mul_one, Int.natCast_zero, Int.sub_zero] at hexact
  have hround : n.toUInt64.toFloat.toModel.unpack =
      .finite .positive (n * 2 ^ (52 - n.log2)) (n.log2 - 52) h.pos := by
    have hsame : n.toUInt64.toNat = n := Nat.mod_eq_of_lt (by omega)
    have hdecrease : decreaseExponent n 0 (binary64.targetExponent (totalExponent n 0)) =
        (n * 2 ^ (52 - n.log2), (n.log2 : Int) - 52) := by
      have hshift : (0 - binary64.targetExponent (totalExponent n 0)).toNat = 52 - n.log2 := by
        rw [targetExponent_eq]
        omega
      rw [decreaseExponent, hshift, Nat.shiftLeft_eq]
      exact Prod.ext rfl (by dsimp only; omega)
    have hofInt : UnpackedFloat.ofInt binary64 n = UnpackedFloat.round binary64 .positive n 0 := by
      rw [UnpackedFloat.ofInt, UnpackedFloat.normalize, Int.compare_eq_gt.2 (by omega)]
      rfl
    change (Float.Model.pack (UnpackedFloat.ofInt binary64 n.toUInt64.toNat)).unpack = _
    rw [hsame, hofInt, UnpackedFloat.round, hdecrease]
    dsimp only
    rw [hexact, unpack_pack h]
  have hmul := round_exact h .positive 52
  rw [hof]
  change Float.Model.pack (UnpackedFloat.mul binary64 _ _) = _
  rw [hround, unpack_one, UnpackedFloat.mul]
  exact congrArg Float.Model.pack hmul

/-- What a number is rounded to: it has the size of it, or is the next power of two. -/
def IsRounding (n m : Nat) (q : Int) : Prop :=
  q = n.log2 - 52 ∧ m = significand n ∨ q = n.log2 - 51 ∧ m = 2 ^ 52 ∧ significand n = 2 ^ 53

/-- The float of an integer is an integer, and it is what the integer is rounded to. -/
theorem isNormal_ofNat {n : Nat} (h0 : 0 < n) (hn : n < 2 ^ 64) : ∃ (m : Nat) (q : Int)
    (h : IsNormal m q), (Float.ofNat n).toModel = .pack (.finite .positive m q h.pos) ∧
      (0 ≤ q ∨ m % 2 ^ (-q).toNat = 0) ∧ IsRounding n m q := by
  by_cases hsmall : n < 2 ^ 53
  · obtain ⟨h, hof⟩ := toModel_ofNat_small h0 hsmall
    have hlog : n.log2 < 53 := (Nat.log2_lt (Nat.ne_of_gt h0)).2 hsmall
    have hexponent : (-((n.log2 : Int) - 52)).toNat = 52 - n.log2 := by omega
    exact ⟨_, _, h, hof, .inr (by rw [hexponent, Nat.mul_mod_left]),
      .inl ⟨rfl, (significand_short (by omega)).symm⟩⟩
  · have hlarge : 2 ^ 53 ≤ n := Nat.le_of_not_lt hsmall
    have hlog : (n * 2 ^ 53).log2 = n.log2 + 53 := log2_mul_two_pow (by omega) 53
    have hlower : 53 ≤ n.log2 := (Nat.le_log2 (by omega)).2 hlarge
    have hupper : n.log2 < 64 := (Nat.log2_lt (by omega)).2 hn
    obtain ⟨m, q, h, hround, hq⟩ := round_normal (m := n * 2 ^ 53) (e := -53) (by omega) (by omega)
      (by omega) .positive
    rw [significand_mul_two_pow (by omega)] at hq
    exact ⟨m, q, h, by rw [toModel_ofNat_large hlarge, hround], .inl (by omega),
      by rw [IsRounding]; omega⟩

theorem toModel_ofNat {n : Nat} (h : IsNormal m q) (h0 : 0 < n)
    (hn : if 0 ≤ q then n = m * 2 ^ q.toNat else n * 2 ^ (-q).toNat = m) :
    (Float.ofNat n).toModel = .pack (.finite .positive m q h.pos) := by
  obtain ⟨hfull, hfits, -, -⟩ := id h
  by_cases hsmall : n < 2 ^ 53
  · obtain ⟨h', hof⟩ := toModel_ofNat_small h0 hsmall
    have hsame : n * 2 ^ (52 - n.log2) = m ∧ (n.log2 : Int) - 52 = q := by
      split at hn
      · have hq : q.toNat = 0 := by
          by_contra hne
          have := Nat.mul_le_mul hfull (Nat.pow_le_pow_right (n := 2) (by decide) (Nat.pos_of_ne_zero hne))
          omega
        rw [hq, Nat.pow_zero, Nat.mul_one] at hn
        rw [hn, h.log2, Nat.sub_self, Nat.pow_zero, Nat.mul_one]
        omega
      · have hlog : n.log2 + (-q).toNat = 52 := by
          rw [← log2_mul_two_pow (Nat.ne_of_gt h0), hn, h.log2]
        rw [← hn, show 52 - n.log2 = (-q).toNat by omega]
        omega
    obtain ⟨rfl, rfl⟩ := hsame
    exact hof
  · have hlarge : 2 ^ 53 ≤ n := Nat.le_of_not_lt hsmall
    have hq : 0 ≤ q := by
      by_contra hneg
      rw [if_neg hneg] at hn
      have := Nat.le_mul_of_pos_right n (Nat.two_pow_pos (-q).toNat)
      omega
    rw [if_pos hq] at hn
    have hscaled : n * 2 ^ 53 = m * 2 ^ (q.toNat + 53) := by rw [hn, Nat.mul_assoc, ← Nat.pow_add]
    have hexponent : (-53 : Int) = q - (q.toNat + 53 : Nat) := by omega
    rw [toModel_ofNat_large hlarge, hscaled, hexponent, round_exact h]

/-- The integer of a sign and a magnitude is a float if its magnitude is. -/
theorem toModel_ofInt {n : Nat} (h : IsNormal m q) (h0 : 0 < n)
    (hn : (Float.ofNat n).toModel = .pack (.finite .positive m q h.pos)) (s : Sign) :
    (Float.ofInt (s.apply n)).toModel = .pack (.finite s m q h.pos) := by
  cases s with
  | positive => exact hn
  | negative =>
    obtain ⟨k, rfl⟩ := Nat.exists_eq_add_one.2 h0
    change Float.Model.pack (UnpackedFloat.neg (Float.ofNat (k + 1)).toModel.unpack) = _
    rw [hn, unpack_pack h]
    rfl

theorem exists_apply (i : Int) : ∃ s : Sign, i = s.apply i.natAbs := by
  obtain h | h := Int.natAbs_eq i
  · exact ⟨.positive, h⟩
  · exact ⟨.negative, h⟩

/-- What the float of an integer is made of. -/
theorem unpack_floatOfInt {i : Int64} (h0 : i ≠ 0) : ∃ (s : Sign) (m : Nat) (q : Int)
    (h : IsNormal m q), (floatOfInt i).toModel.unpack = .finite s m q h.pos ∧
      (0 ≤ q ∨ m % 2 ^ (-q).toNat = 0) ∧ IsRounding i.toInt.natAbs m q ∧
        i.toInt = s.apply i.toInt.natAbs := by
  obtain ⟨s, hs⟩ := exists_apply i.toInt
  have hpos : 0 < i.toInt.natAbs := Int.natAbs_pos.2 fun h => h0 (Int64.toInt_inj.1 h)
  have hlt : i.toInt.natAbs < 2 ^ 64 := by
    have := i.toInt_lt
    have := i.le_toInt
    omega
  obtain ⟨m, q, h, hn, hwhole, hsize⟩ := isNormal_ofNat hpos hlt
  refine ⟨s, m, q, h, ?_, hwhole, hsize, hs⟩
  rw [floatOfInt, hs, toModel_ofInt h hpos hn, unpack_pack h]

/-- An integer is neither undefined nor the zero with a sign. -/
theorem floatOfInt_defined (i : Int64) :
    (floatOfInt i).isNaN = false ∧ (floatOfInt i).toBits ≠ Double.signBit := by
  by_cases h0 : i = 0
  · subst h0
    exact ⟨rfl, by decide⟩
  · obtain ⟨s, m, q, h, hmodel, -⟩ := unpack_floatOfInt h0
    constructor
    · change UnpackedFloat.isNaN _ = false
      rw [hmodel]
      rfl
    · intro hz
      have : (floatOfInt i).toModel.unpack = .zero .negative := by
        change UnpackedFloat.unpack binary64 (floatOfInt i).toBits.toBitVec = _
        rw [hz]
        rfl
      rw [hmodel] at this
      cases this

theorem pack_toModel_unpack (x : Float) : Float.Model.pack x.toModel.unpack = x.toModel := by
  obtain ⟨⟨bits, hvalid⟩⟩ := x
  exact (Float.Model.mk.injEq ..).mpr (UInt64.toBitVec_inj.1 (pack_unpack_of_valid hvalid))

theorem toInt_of_clamp {i : Int} (hlo : Int64.minValue < Int64.ofIntClamp i)
    (hhi : Int64.ofIntClamp i < Int64.maxValue) : (Int64.ofIntClamp i).toInt = i := by
  rw [Int64.ofIntClamp] at hlo hhi ⊢
  split at hlo
  · rename_i h₁
    rw [dif_pos h₁] at hhi ⊢
    split at hhi
    · rename_i h₂
      rw [dif_pos h₂, Int64.toInt_ofIntLE]
    · exact absurd hhi (by decide)
  · exact absurd hlo (by decide)

/-- An integral float without a full mantissa is a zero. -/
theorem eq_zero_of_isIntegral {x : Float} (hi : isIntegral x = true) (he : exponentField x = 0)
    (hz : x.toBits ≠ Double.signBit) : x = Float.ofBits 0 := by
  simp only [isIntegral, Bool.and_eq_true, exponent, mantissa, if_pos he] at hi
  have hfraction : x.toBits.toNat % 2 ^ 52 = 0 := by
    have hmod := beq_iff_eq.1 ((Bool.or_eq_true_iff.1 hi.2).resolve_left (by decide))
    rwa [Nat.mod_eq_of_lt (Nat.lt_of_lt_of_le (Nat.mod_lt _ (by decide))
      (Nat.pow_le_pow_right (by decide) (by decide)))] at hmod
  have hlt := x.toBits.toNat_lt
  rw [exponentField] at he
  have hcases : x.toBits.toNat = 0 ∨ x.toBits.toNat = 2 ^ 63 := by omega
  have hzero : x.toBits = 0 := by
    rcases hcases with h | h
    · exact UInt64.toNat_inj.1 h
    · exact absurd (UInt64.toNat_inj.1 h) hz
  rw [← hzero, Float.ofBits_toBits]

/-- A finite float is defined. -/
theorem isNaN_eq_false {x : Float} (h : isFinite x = true) : x.isNaN = false := by
  have hlast : @unpackExponent binary64 x.toBits.toBitVec ≠ -1#11 :=
    unpackExponent_ne (by simpa [isFinite] using h) (by decide)
  change UnpackedFloat.isNaN (UnpackedFloat.unpack binary64 x.toBits.toBitVec) = false
  rw [UnpackedFloat.unpack]
  simp only [hlast, if_false]
  split <;> try rfl
  split <;> rfl

/-- The magnitude of an integral float without its fraction is all of it. -/
theorem truncatedMagnitude_eq {x : Float} (hi : isIntegral x = true) :
    if 0 ≤ exponent x then truncatedMagnitude x = mantissa x * 2 ^ (exponent x).toNat
    else truncatedMagnitude x * 2 ^ (-exponent x).toNat = mantissa x := by
  rw [isIntegral, Bool.and_eq_true] at hi
  rw [truncatedMagnitude]
  split
  · rfl
  · rename_i hneg
    have hmod : mantissa x % 2 ^ (-exponent x).toNat = 0 := by simpa [hneg] using hi.2
    exact Nat.div_mul_cancel (Nat.dvd_of_mod_eq_zero hmod)

theorem truncatedMagnitude_eq_zero {x : Float} (h : mantissa x = 0) : truncatedMagnitude x = 0 := by
  rw [truncatedMagnitude, h, Nat.zero_mul, Nat.zero_div]
  exact ite_self 0

theorem truncated_eq (x : Float) : truncated x = (signOf x).apply (truncatedMagnitude x) := by
  rw [truncated, signOf]
  cases isNegative x <;> rfl

/-- **An integral float is the float of its integer**, unless it is the zero with a sign. -/
theorem floatOfInt_eq {x : Float} {i : Int64} (hi : isIntegral x = true)
    (hz : x.toBits ≠ Double.signBit) (h : i.toInt = truncated x) : floatOfInt i = x := by
  by_cases he : exponentField x = 0
  · obtain rfl := eq_zero_of_isIntegral hi he hz
    rw [truncated_eq, truncatedMagnitude_eq_zero rfl] at h
    obtain rfl : i = 0 := Int64.toInt_inj.1 h
    rfl
  · have hfinite : isFinite x = true := (Bool.and_eq_true .. ▸ hi : _ ∧ _).1
    obtain ⟨hnormal, hunpack⟩ := unpack_eq hfinite he
    have hmagnitude := truncatedMagnitude_eq hi
    have hpos : 0 < truncatedMagnitude x := by
      refine Nat.pos_of_ne_zero fun h0 => Nat.ne_of_gt hnormal.pos ?_
      rw [h0] at hmagnitude
      split at hmagnitude
      · exact (Nat.mul_eq_zero.1 hmagnitude.symm).resolve_right (Nat.ne_of_gt (Nat.two_pow_pos _))
      · rw [← hmagnitude, Nat.zero_mul]
    rw [floatOfInt, h, truncated_eq]
    have hsame := toModel_ofInt hnormal hpos (toModel_ofNat hnormal hpos hmagnitude) (signOf x)
    rw [← hunpack, pack_toModel_unpack] at hsame
    exact congrArg Float.ofModel hsame

theorem toInt64_eq {x : Float} (h : isFinite x = true) : toInt64 x = Int64.ofIntClamp (truncated x) := by
  rw [toInt64, isNaN_eq_false h, if_neg Bool.false_ne_true, if_pos h]

/-- An integral float within reach is the float of the integer next to it. -/
theorem floatOfInt_toInt64 {x : Float} (hi : isIntegral x = true) (hz : x.toBits ≠ Double.signBit)
    (hlo : Int64.minValue < toInt64 x) (hhi : toInt64 x < Int64.maxValue) :
    floatOfInt (toInt64 x) = x := by
  have hint := toInt64_eq (x := x) (Bool.and_eq_true .. ▸ hi : _ ∧ _).1
  rw [hint] at hlo hhi
  exact floatOfInt_eq hi hz (by rw [hint, toInt_of_clamp hlo hhi])

/-! ## Undefined floats -/

/-- There is one undefined float. -/
theorem eq_of_isNaN {x y : Float} (hx : x.isNaN = true) (hy : y.isNaN = true) : x = y := by
  have hmodel : x.toModel = y.toModel := by
    rw [← pack_toModel_unpack x, isNaN_iff.1 hx, ← isNaN_iff.1 hy, pack_toModel_unpack]
  exact congrArg Float.ofModel hmodel

theorem isNaN_unpack (b : BitVec binary64.numBits) :
    UnpackedFloat.isNaN (UnpackedFloat.unpack binary64 b) = isNaNBits b := by
  rw [UnpackedFloat.unpack, isNaNBits]
  split
  · split <;> simp_all [UnpackedFloat.isNaN]
  · split
    · split <;> simp_all [UnpackedFloat.isNaN]
    · simp_all [UnpackedFloat.isNaN]

/-- A word is that of an undefined float if its exponent is the greatest and its mantissa is not zero. -/
theorem isNaN_ofBits (b : UInt64) : (Float.ofBits b).isNaN = @isNaNBits binary64 b.toBitVec := by
  change UnpackedFloat.isNaN (UnpackedFloat.unpack binary64
    (UnpackedFloat.pack binary64 (UnpackedFloat.unpack binary64 b.toBitVec))) = _
  rw [pack_unpack, isNaN_unpack]
  cases h : @isNaNBits binary64 b.toBitVec with
  | true => exact isNaNBits_packedNaN
  | false => rw [if_neg Bool.false_ne_true, h]

/-- An undefined float stays undefined when it is made quiet. -/
theorem isNaNBits_quiet {b : UInt64} (h : @isNaNBits binary64 b.toBitVec = true) :
    @isNaNBits binary64 (b ||| Double.quietBit).toBitVec = true := by
  rw [isNaNBits, decide_eq_true_iff, unpackExponent_def, unpackMantissa_def] at h ⊢
  rw [UInt64.toBitVec_or, BitVec.extractLsb'_or, BitVec.extractLsb'_or, h.1]
  refine ⟨by decide, fun h0 => ?_⟩
  rw [BitVec.or_eq_zero_iff] at h0
  exact absurd h0.2 (by decide)

end LazyQuery.Binary

namespace LazyQuery.Double

open Float.Model Float.Model.Format Float.Model.UnpackedFloat

theorem value_ofFloat (y : Float) : (ofFloat y).value = y := Float.ofBits_toBits y

/-- A word that is not undefined is that of its float. -/
theorem ofFloat_value {x : Double} (h : x.isNaN = false) : ofFloat x.value = x := by
  have hbits : (UnpackedFloat.unpack binary64 x.bits.toBitVec).pack binary64 = x.bits.toBitVec := by
    rw [pack_unpack]
    refine if_neg fun hn => ?_
    have hnan : x.isNaN = UnpackedFloat.isNaN (UnpackedFloat.unpack binary64
        ((UnpackedFloat.unpack binary64 x.bits.toBitVec).pack binary64)) := rfl
    rw [pack_unpack, if_pos hn, unpack_packedNaN, h] at hnan
    cases hnan
  exact congrArg Double.mk (UInt64.toBitVec_inj.1 hbits)

/-- **The float of a result is the result.** Its word says more if it is undefined. -/
@[simp] theorem value_ofResult (operands : List Double) (r : Float) : (ofResult operands r).value = r := by
  rw [ofResult]
  split
  · rename_i hr
    refine Binary.eq_of_isNaN ?_ hr
    cases h : operands.find? isNaN with
    | some x =>
      have hx := List.find?_some h
      rw [isNaN, value, Binary.isNaN_ofBits] at hx
      exact (Binary.isNaN_ofBits _).trans (Binary.isNaNBits_quiet hx)
    | none => decide
  · exact value_ofFloat r

@[simp] theorem value_mul (x y : Double) : (x * y).value = x.value * y.value := value_ofResult _ _

@[simp] theorem value_doubleOfInt (i : Int64) : (doubleOfInt i).value = floatOfInt i := value_ofFloat _

end LazyQuery.Double
