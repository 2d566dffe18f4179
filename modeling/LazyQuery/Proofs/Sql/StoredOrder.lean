import LazyQuery.Proofs.Scalar.ExactOrder
import LazyQuery.Proofs.Scalar.Order
import LazyQuery.Sql.Datum

/-!
# The order of stored values

Stored values are totally preordered (the instance of `Std.TransCmp`): by their kinds first, numbers by
their exact values, whichever of the two kinds of numbers they are. So what the store sorts is sorted,
also where integers and floats are mixed.
-/

set_option autoImplicit false

namespace LazyQuery.Sql.Datum

open scoped Numbers

/-- The place of a number among the numbers. -/
def place : Datum → Int × Int
  | integer i => (0, i.toInt * 2 ^ 1074)
  | real x => Binary.units x.toModel.unpack
  | _ => (0, 0)

/-- The characters of a text. -/
def chars : Datum → List Char
  | text s => s.toList
  | _ => []

/-- The bytes of a blob. -/
def bytes : Datum → List UInt8
  | blob bs => bs
  | _ => []

/-- Values in the order of their kinds, and within each kind by what they hold. -/
def compareByKind : Datum → Datum → Ordering :=
  compareLex (compareOn kindRank) (compareLex (.byKey place Binary.compareUnits)
    (compareLex (.byKey chars Scalar.compareChars) (.byKey bytes Scalar.compareBytes)))

instance : Std.TransCmp compareByKind :=
  inferInstanceAs (Std.TransCmp (compareLex _ (compareLex _ (compareLex _ _))))

theorem compareByKind_number {a b : Datum} (ha : a.kindRank = 1) (hb : b.kindRank = 1) :
    compareByKind a b = Binary.compareUnits a.place b.place := by
  cases a <;> cases ha <;> cases b <;> cases hb <;>
    simp [compareByKind, compareLex, compareOn, Ordering.byKey, kindRank, chars, bytes,
      Scalar.compareChars, Scalar.compareBytes]

theorem compare_number {a b : Datum} (ha : a.kindRank = 1) (hb : b.kindRank = 1) :
    a.compare b = Binary.compareUnits a.place b.place := by
  have swap (p q : Int × Int) : (Binary.compareUnits p q).swap = Binary.compareUnits q p :=
    Std.OrientedCmp.eq_swap.symm
  cases a with
  | integer i =>
    cases b with
    | integer j => exact (Binary.compare_mul_pos i.toInt j.toInt (Int.pow_pos (by decide))).symm
    | real y => exact Binary.compareInt_eq_units _ _
    | _ => cases hb
  | real x =>
    cases b with
    | integer j =>
      rw [compare, Binary.compareInt_eq_units, swap]
      rfl
    | real y => exact Binary.compareFloat_eq_units _ _
    | _ => cases hb
  | _ => cases ha

/-- **Stored values are compared by what they are.** -/
theorem compare_eq_byKind : compare = compareByKind := by
  funext a b
  by_cases h : a.kindRank = 1 ∧ b.kindRank = 1
  · rw [compare_number h.1 h.2, compareByKind_number h.1 h.2]
  · cases a <;> cases b <;>
      first
      | rfl
      | exact absurd ⟨rfl, rfl⟩ h
      | simp [compare, compareByKind, compareLex, compareOn, Ordering.byKey, kindRank, place, chars,
          bytes, Scalar.compareBytes, Binary.compareUnits]

/-- **The order of stored values is a total preorder**, integers and floats together. -/
instance : Std.TransCmp compare := compare_eq_byKind ▸ inferInstance

/-- A stored value is told by the cell that it is read as. -/
theorem toScalar_inj {a b : Datum} : a.toScalar = b.toScalar ↔ a = b := by
  refine ⟨fun h => ?_, congrArg toScalar⟩
  cases a with
  | real x =>
    cases b with
    | real y =>
      have hxy : Double.ofFloat x = .ofFloat y := Scalar.float.inj h
      rw [← Double.value_ofFloat x, hxy, Double.value_ofFloat]
    | _ => cases h
  | _ =>
    cases b <;> cases h
    rfl

end LazyQuery.Sql.Datum
