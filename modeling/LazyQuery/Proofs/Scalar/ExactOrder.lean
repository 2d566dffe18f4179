import LazyQuery.Proofs.Scalar.FloatOrder

/-!
# The exact order of numbers

Integers and floats are compared by their exact values. All of them are counted in *units*, the least
float above zero being one: `units` gives the place of a float, and `compareFloat_eq_units` and
`compareInt_eq_units` say that numbers of either kind are compared by their places. So there is one order
of them all.
-/

set_option autoImplicit false

namespace LazyQuery.Binary

open Float.Model Float.Model.Format Float.Model.UnpackedFloat
open scoped Numbers

variable {x : Float} {m m' : Nat} {e e' : Int}

/-! ## Mantissas and exponents -/

/-- The mantissa and the exponent of a finite float other than zero: the mantissa is full, or else the
exponent is the least one. -/
structure IsCanonical (m : Nat) (e : Int) : Prop where
  fits : m < 2 ^ 53
  least : -1074 ≤ e
  full : e = -1074 ∨ 2 ^ 52 ≤ m

/-- A float without a full mantissa is what its fields say. -/
theorem unpack_small (he : exponentField x = 0) : (mantissa x = 0 ∧ x.toModel.unpack = .zero (signOf x)) ∨
    ∃ h : 0 < mantissa x, x.toModel.unpack = .finite (signOf x) (mantissa x) (-1074) h := by
  have hexp := toNat_unpackExponent x
  have hman : (@unpackMantissa binary64 x.toBits.toBitVec).toNat = mantissa x := by
    rw [unpackMantissa_def, BitVec.extractLsb'_toNat, mantissa, if_pos he]
    rfl
  have hlast : (0#11 = -1#11) = False := by decide
  have hzero : @unpackExponent binary64 x.toBits.toBitVec = 0#11 := by
    rw [← BitVec.toNat_inj, hexp, he]
    rfl
  have hunpack : x.toModel.unpack = UnpackedFloat.unpack binary64 x.toBits.toBitVec := rfl
  rw [hunpack, UnpackedFloat.unpack]
  simp only [hzero, hlast, if_true, if_false, ofBitVec_unpackSign]
  split
  · rename_i h
    rw [h] at hman
    exact .inl ⟨hman.symm, rfl⟩
  · rename_i h
    have hpos : 0 < mantissa x := by
      rw [← hman, Nat.pos_iff_ne_zero]
      exact fun h0 => h (BitVec.toNat_inj.1 h0)
    refine .inr ⟨hpos, ?_⟩
    simp only [hman]
    rfl

/-- A float that is not finite has no mantissa. -/
theorem unpack_large (hf : isFinite x = false) :
    x.toModel.unpack = .infinity (signOf x) ∨ x.toModel.unpack = .notANumber := by
  have hfield : exponentField x = 2047 := by simpa [isFinite] using hf
  have hlast : @unpackExponent binary64 x.toBits.toBitVec = -1#11 := by
    rw [← BitVec.toNat_inj, toNat_unpackExponent, hfield]
    rfl
  have hunpack : x.toModel.unpack = UnpackedFloat.unpack binary64 x.toBits.toBitVec := rfl
  rw [hunpack, UnpackedFloat.unpack]
  simp only [hlast, if_true, ofBitVec_unpackSign]
  split
  · exact .inl rfl
  · exact .inr rfl

theorem isCanonical_unpack {s : Sign} {h : 0 < m} (hx : x.toModel.unpack = .finite s m e h) :
    IsCanonical m e := by
  cases hf : isFinite x with
  | false => obtain h | h := unpack_large hf <;> exact nomatch h.symm.trans hx
  | true =>
    by_cases he : exponentField x = 0
    · obtain ⟨-, h⟩ | ⟨_, h⟩ := unpack_small he
      · exact nomatch h.symm.trans hx
      · obtain ⟨-, rfl, rfl⟩ := UnpackedFloat.finite.inj (h.symm.trans hx)
        have hfits : mantissa x < 2 ^ 52 := by
          rw [mantissa, if_pos he]
          exact Nat.mod_lt _ (Nat.two_pow_pos 52)
        exact ⟨Nat.lt_trans hfits (by decide), Int.le_refl _, .inl rfl⟩
    · obtain ⟨hnormal, h⟩ := unpack_eq hf he
      obtain ⟨-, rfl, rfl⟩ := UnpackedFloat.finite.inj (h.symm.trans hx)
      exact ⟨hnormal.fits, hnormal.least, .inr hnormal.full⟩

/-- A mantissa in units, of which there are `2 ^ 1074` in one. -/
def scaled (m : Nat) (e : Int) : Nat := m * 2 ^ (e + 1074).toNat

theorem scaled_lt (h : IsCanonical m e) (h' : IsCanonical m' e') (he : e < e') :
    scaled m e < scaled m' e' := by
  have hm' : 2 ^ 52 ≤ m' := h'.full.resolve_left fun h0 => by
    have := h.least
    omega
  obtain ⟨k, hk⟩ := Int.eq_ofNat_of_zero_le (show 0 ≤ e' - e - 1 by omega)
  have hexponent : (e' + 1074).toNat = (e + 1074).toNat + (k + 1) := by
    have := h.least
    omega
  calc scaled m e < 2 ^ 53 * 2 ^ (e + 1074).toNat :=
        Nat.mul_lt_mul_of_pos_right h.fits (Nat.two_pow_pos _)
    _ = 2 ^ 52 * (2 ^ (e + 1074).toNat * 2 ^ 1) := by
        rw [Nat.mul_comm (2 ^ (e + 1074).toNat), ← Nat.mul_assoc, ← Nat.pow_add]
    _ ≤ m' * (2 ^ (e + 1074).toNat * 2 ^ (k + 1)) :=
        Nat.mul_le_mul hm' (Nat.mul_le_mul_left _ (Nat.pow_le_pow_right (by decide) (by omega)))
    _ = scaled m' e' := by rw [scaled, hexponent, ← Nat.pow_add]

/-- Mantissas are compared by their exponents first, which is by what they stand for. -/
theorem compare_scaled (h : IsCanonical m e) (h' : IsCanonical m' e') :
    (Ord.compare e e').then (Ord.compare m m') = Ord.compare (scaled m e) (scaled m' e') := by
  rcases Int.lt_trichotomy e e' with he | rfl | he
  · rw [Int.compare_eq_lt.2 he, Nat.compare_eq_lt.2 (scaled_lt h h' he)]
    rfl
  · rw [Int.compare_eq_eq.2 rfl]
    change Ord.compare m m' = Ord.compare (m * 2 ^ (e + 1074).toNat) (m' * 2 ^ (e + 1074).toNat)
    have hpos := Nat.two_pow_pos (e + 1074).toNat
    rcases Nat.lt_trichotomy m m' with hm | rfl | hm
    · rw [Nat.compare_eq_lt.2 hm, Nat.compare_eq_lt.2 (Nat.mul_lt_mul_of_pos_right hm hpos)]
    · rw [Nat.compare_eq_eq.2 rfl, Nat.compare_eq_eq.2 rfl]
    · rw [Nat.compare_eq_gt.2 hm, Nat.compare_eq_gt.2 (Nat.mul_lt_mul_of_pos_right hm hpos)]
  · rw [Int.compare_eq_gt.2 he, Nat.compare_eq_gt.2 (scaled_lt h' h he)]
    rfl

/-! ## Places -/

/-- The place of a float: its class, and in units what it is if it is finite. -/
def units : UnpackedFloat → Int × Int
  | .infinity .negative => (-1, 0)
  | .zero _ => (0, 0)
  | .finite s m e _ => (0, s.apply (scaled m e))
  | .infinity .positive => (1, 0)
  | .notANumber => (2, 0)

/-- Places are compared by their classes first. -/
def compareUnits : Int × Int → Int × Int → Ordering :=
  compareLex (compareOn (·.1)) (compareOn (·.2))

instance : Std.TransCmp compareUnits := inferInstanceAs (Std.TransCmp (compareLex _ _))

theorem compareUnits_finite (k l : Int) : compareUnits (0, k) (0, l) = Ord.compare k l := rfl

theorem scaled_pos (hm : 0 < m) (e : Int) : 0 < (scaled m e : Int) :=
  Int.natCast_pos.2 (Nat.mul_pos hm (Nat.two_pow_pos _))

/-- The order by ranks is that by places, for floats of the one format. -/
theorem compareRank_eq_units (a b : UnpackedFloat)
    (ha : ∀ s m e h, a = .finite s m e h → IsCanonical m e)
    (hb : ∀ s m e h, b = .finite s m e h → IsCanonical m e) :
    compareRank (rank a) (rank b) = compareUnits (units a) (units b) := by
  cases a with
  | notANumber =>
    cases b with
    | notANumber | zero => rfl
    | infinity t => cases t <;> rfl
    | finite t => cases t <;> rfl
  | infinity s =>
    cases b with
    | notANumber | zero => cases s <;> rfl
    | infinity t => cases s <;> cases t <;> rfl
    | finite t => cases s <;> cases t <;> rfl
  | zero s =>
    cases b with
    | notANumber | zero => rfl
    | infinity t => cases t <;> rfl
    | finite t m e h =>
      have hpos := scaled_pos h e
      cases t with
      | positive => exact (Int.compare_eq_lt.2 hpos).symm
      | negative => exact (Int.compare_eq_gt.2 (Int.neg_neg_of_pos hpos)).symm
  | finite s m e h =>
    have hpos := scaled_pos h e
    cases b with
    | notANumber => cases s <;> rfl
    | infinity t => cases s <;> cases t <;> rfl
    | zero =>
      cases s with
      | positive => exact (Int.compare_eq_gt.2 hpos).symm
      | negative => exact (Int.compare_eq_lt.2 (Int.neg_neg_of_pos hpos)).symm
    | finite t m' e' h' =>
      have hpos' := scaled_pos h' e'
      have hscaled := compare_scaled (ha _ _ _ _ rfl) (hb _ _ _ _ rfl)
      cases s with
      | positive =>
        cases t with
        | positive =>
          change (Ord.compare e e').then (Ord.compare (m : Int) m') =
            Ord.compare (scaled m e : Int) (scaled m' e')
          rw [compare_natCast, compare_natCast, hscaled]
        | negative => exact (Int.compare_eq_gt.2 (Int.lt_trans (Int.neg_neg_of_pos hpos') hpos)).symm
      | negative =>
        cases t with
        | positive => exact (Int.compare_eq_lt.2 (Int.lt_trans (Int.neg_neg_of_pos hpos) hpos')).symm
        | negative =>
          change (Ord.compare (-e) (-e')).then (Ord.compare (-m : Int) (-m')) =
            Ord.compare (-(scaled m e : Int)) (-(scaled m' e'))
          rw [compare_neg, compare_neg, compare_neg, compare_natCast, compare_natCast, ← hscaled,
            Ordering.swap_then]

/-- **Floats are compared by their places.** -/
theorem compareFloat_eq_units (x y : Float) :
    compareFloat x y = compareUnits (units x.toModel.unpack) (units y.toModel.unpack) := by
  rw [compareFloat_eq_rank]
  exact compareRank_eq_units _ _ (fun _ _ _ _ => isCanonical_unpack) fun _ _ _ _ => isCanonical_unpack

/-- What a finite float is in units. -/
theorem units_finite (hf : isFinite x = true) :
    units x.toModel.unpack = (0, (signOf x).apply (scaled (mantissa x) (exponent x))) := by
  by_cases he : exponentField x = 0
  · have hexponent : exponent x = -1074 := if_pos he
    obtain ⟨hzero, h⟩ | ⟨_, h⟩ := unpack_small he
    · rw [h, hzero, scaled, Nat.zero_mul]
      cases signOf x <;> rfl
    · rw [h, hexponent]
      rfl
  · obtain ⟨_, h⟩ := unpack_eq hf he
    rw [h]
    rfl

theorem compare_mul_pos (i j : Int) {k : Int} (hk : 0 < k) :
    Ord.compare (i * k) (j * k) = Ord.compare i j := by
  rcases Int.lt_trichotomy i j with h | rfl | h
  · rw [Int.compare_eq_lt.2 h, Int.compare_eq_lt.2 (Int.mul_lt_mul_of_pos_right h hk)]
  · rw [Int.compare_eq_eq.2 rfl, Int.compare_eq_eq.2 rfl]
  · rw [Int.compare_eq_gt.2 h, Int.compare_eq_gt.2 (Int.mul_lt_mul_of_pos_right h hk)]

/-- **An integer and a float are compared by their places.** -/
theorem compareInt_eq_units (i : Int) (x : Float) :
    compareInt i x = compareUnits (0, i * 2 ^ 1074) (units x.toModel.unpack) := by
  rw [compareInt]
  cases hf : isFinite x with
  | false =>
    rw [if_neg Bool.false_ne_true]
    obtain h | h := unpack_large hf
    · rw [h, signOf]
      cases isNegative x <;> rfl
    · have hnan : x.isNaN = true := by rw [isNaN_eq, h]; rfl
      have hx : x = .ofBits 0x7FF8000000000000 := eq_of_isNaN hnan (by decide)
      have hneg : isNegative x = false := by rw [hx]; decide
      rw [h, hneg]
      rfl
  | true =>
    have hsigned : (if isNegative x then -(mantissa x : Int) else mantissa x) =
        (signOf x).apply (mantissa x) := by
      rw [signOf]
      cases isNegative x <;> rfl
    have hleast : -1074 ≤ exponent x := by
      rw [exponent]
      split <;> omega
    rw [if_pos rfl, units_finite hf, compareUnits_finite, scaled, Int.natCast_mul, apply_mul]
    dsimp only
    rw [hsigned, Int.natCast_pow]
    generalize (signOf x).apply (mantissa x) = signed
    have hpos (k : Nat) : (0 : Int) < 2 ^ k := Int.pow_pos (by decide)
    change _ = Ord.compare (i * 2 ^ 1074) (signed * 2 ^ (exponent x + 1074).toNat)
    by_cases hq : 0 ≤ exponent x
    · have hexponent : (exponent x + 1074).toNat = (exponent x).toNat + 1074 := by omega
      rw [if_pos hq, hexponent, Int.pow_add, ← Int.mul_assoc, compare_mul_pos _ _ (hpos 1074)]
    · have hexponent : (-exponent x).toNat + (exponent x + 1074).toNat = 1074 := by omega
      rw [if_neg hq, ← hexponent, Int.pow_add, ← Int.mul_assoc, compare_mul_pos _ _ (hpos _)]

end LazyQuery.Binary
