import LazyQuery.Decimal.Word

/-!
# Arithmetic of words

Which integers fit in a word (`Fits`), and what arithmetic makes of that. The union of two words less
their intersection is their exclusive or, without leaving the range of words on the way.
-/

set_option autoImplicit false

namespace LazyQuery.Word

open scoped Numbers

/-- The integer fits in a word. -/
def Fits (i : Int) : Prop := -2 ^ 63 ≤ i ∧ i < 2 ^ 63

theorem fits_toInt (a : Int64) : Fits a.toInt := ⟨a.le_toInt, a.toInt_lt⟩

theorem exists_fit? {i : Int} (h : Fits i) : ∃ a, fit? i = some a ∧ a.toInt = i :=
  ⟨Int64.ofInt i, if_pos h, Int64.toInt_ofInt_of_le h.1 h.2⟩

theorem fit?_eq_none {i : Int} (h : ¬ Fits i) : fit? i = none := if_neg h

@[simp] theorem fit?_toInt (i : Int64) : fit? i.toInt = some i := by
  obtain ⟨a, ha, hvalue⟩ := exists_fit? (fits_toInt i)
  rw [ha, Int64.toInt_inj.1 hvalue]

theorem fit?_eq_some {i : Int} {a : Int64} : fit? i = some a ↔ i = a.toInt := by
  constructor
  · intro h
    by_cases hi : Fits i
    · obtain ⟨b, hb, hvalue⟩ := exists_fit? hi
      rw [← hvalue, Option.some.inj (hb.symm.trans h)]
    · rw [fit?_eq_none hi] at h
      cases h
  · rintro rfl
    exact fit?_toInt a

/-- What belongs to one of two words only and what belongs to both make up what belongs to any. -/
theorem toNat_or (x y : BitVec 64) : (x ||| y).toNat = (x ^^^ y).toNat + (x &&& y).toNat := by
  have apart : (x ^^^ y) &&& (x &&& y) = 0#64 := by
    ext i
    simp only [BitVec.getElem_and, BitVec.getElem_xor, BitVec.getElem_zero]
    cases x[i] <;> cases y[i] <;> rfl
  have whole : (x ^^^ y) ||| (x &&& y) = x ||| y := by
    ext i
    simp only [BitVec.getElem_or, BitVec.getElem_and, BitVec.getElem_xor]
    cases x[i] <;> cases y[i] <;> rfl
  rw [← BitVec.toNat_add_of_and_eq_zero apart, BitVec.add_eq_or_of_and_eq_zero _ _ apart, whole]

theorem toInt_xor (a b : Int64) : (a ^^^ b).toInt = (a ||| b).toInt - (a &&& b).toInt := by
  rw [← Int64.toInt_toBitVec, ← Int64.toInt_toBitVec, ← Int64.toInt_toBitVec, Int64.toBitVec_xor,
    Int64.toBitVec_or, Int64.toBitVec_and, BitVec.toInt_eq_msb_cond, BitVec.toInt_eq_msb_cond,
    BitVec.toInt_eq_msb_cond, BitVec.msb_xor, BitVec.msb_or, BitVec.msb_and, toNat_or]
  cases a.toBitVec.msb <;> cases b.toBitVec.msb <;> simp <;> omega

/-- **The exclusive or of two words is the difference of their union and their intersection.** -/
theorem sub?_or_and (a b : Int64) : sub? (a ||| b) (a &&& b) = some (a ^^^ b) := by
  rw [sub?, ← toInt_xor, fit?_toInt]

end LazyQuery.Word
