import LazyQuery.Elementwise
import LazyQuery.Proofs.Outcome

/-!
# Cells as a type declares them

A cell is *as declared* by a type if `Scalar.coerce` to the type does not change it. This leaves more
than the cells of the type: a text is as declared by every type, as no type converts it.

Operators on such cells yield cells as they are declared by the type of their result.

* Conditions yield truth values and nothing else (`compareCells_declared` and so on).
* `arithCells_declared` and `unaryCell_declared` are about arithmetic. Integers in a column of floats
  are what it has to avoid; no operator yields a truth value.
-/

set_option autoImplicit false

namespace LazyQuery

namespace Scalar

@[simp] theorem coerce_null (type : DataType) : Scalar.null.coerce type = .null := by
  cases type <;> rfl

/-- A cell that has been given a type has it. -/
theorem coerce_coerce (type : DataType) (v : Scalar) :
    (v.coerce type).coerce type = v.coerce type := by
  cases type <;> cases v <;> rfl

/-- A cell has its own type. -/
theorem coerce_dataType (v : Scalar) : v.coerce v.dataType = v := by
  cases v <;> rfl

/-- No type makes a value missing. -/
@[simp] theorem isNull_coerce (type : DataType) (v : Scalar) : (v.coerce type).isNull = v.isNull := by
  cases type <;> cases v <;> rfl

@[simp] theorem coerce_ofTruth (b : Option Bool) : (ofTruth b).coerce .boolean = ofTruth b := by
  cases b <;> rfl

/-- Of cells that a column of floats leaves as they are, none is an integer or a truth value. -/
theorem int?_eq_none {v : Scalar} (h : v.coerce .float64 = v) : v.int? = none := by
  cases v <;> first | rfl | cases h

end Scalar

namespace Elementwise

/-! ## Conditions -/

theorem compareCells_declared (op : CompareOp) (x y : Scalar) :
    (compareCells op x y).coerce .boolean = compareCells op x y := by
  rw [compareCells]
  split <;> rfl

theorem likeCell_declared (pattern : String) (v : Scalar) :
    (likeCell pattern v).coerce .boolean = likeCell pattern v := by
  cases v <;> rfl

/-! ## Arithmetic -/

/-- Arithmetic is defined for columns of numbers, and for those without values. -/
def takes (type : DataType) : Bool := type.isNumeric || type == .null

/-- A result is declared a float for a division, and where an operand is. -/
theorem resultType_cases (op : ArithOp) {l r : DataType} (hl : takes l = true) (hr : takes r = true) :
    op.resultType l r = .int64 ∨ op.resultType l r = .float64 ∧
      (op = .div ∨ op.isBitwise = false ∧ (l = .float64 ∨ r = .float64)) := by
  revert hl hr
  cases l <;> cases r <;> cases op <;> decide

theorem bothInt_eq_false {l r : DataType} {x y : Scalar} (hx : x.coerce l = x) (hy : y.coerce r = y)
    (h : l = .float64 ∨ r = .float64) : bothInt x y = false := by
  rcases h with rfl | rfl
  · simp [bothInt, Scalar.int?_eq_none hx]
  · simp [bothInt, Scalar.int?_eq_none hy]

/-- No operator yields a truth value. -/
theorem arithNumbers_int64 (op : ArithOp) (x y : Scalar) :
    (arithNumbers op x y).coerce .int64 = arithNumbers op x y := by
  cases op <;> simp only [arithNumbers, intOrFloat] <;> repeat' split
  all_goals rfl

/-- An operator that does not work on bits yields an integer of integers only. -/
theorem arithNumbers_float64 {op : ArithOp} {x y : Scalar}
    (h : op = .div ∨ op.isBitwise = false ∧ bothInt x y = false) :
    (arithNumbers op x y).coerce .float64 = arithNumbers op x y := by
  rcases h with rfl | ⟨hop, hint⟩
  · rw [arithNumbers]
    split <;> rfl
  · cases op <;> first | (cases hop; done) | (simp only [arithNumbers, hint]; repeat' split)
    all_goals first | rfl | contradiction

theorem arithCells_declared {op : ArithOp} {l r : DataType} (hl : takes l = true)
    (hr : takes r = true) {x y v : Scalar} (hx : x.coerce l = x) (hy : y.coerce r = y)
    (h : arithCells op x y = .ok v) : v.coerce (op.resultType l r) = v := by
  obtain ⟨-, -, h⟩ := bind_eq_ok.1 h
  obtain ⟨-, -, h⟩ := bind_eq_ok.1 h
  obtain rfl := Except.ok.inj h
  split
  · exact Scalar.coerce_null _
  · rcases resultType_cases op hl hr with ht | ⟨ht, hop⟩
    · rw [ht]
      exact arithNumbers_int64 op x y
    · rw [ht]
      exact arithNumbers_float64 (hop.imp_right fun h => ⟨h.1, bothInt_eq_false hx hy h.2⟩)

theorem intOrFloat_int64 (exact : Option Int64) (inexact : Double) :
    (intOrFloat exact inexact).coerce .int64 = intOrFloat exact inexact := by
  cases exact <;> rfl

/-- The negative of a cell of a column of floats is a float: texts are refused. -/
theorem unaryCell_declared {op : UnaryOp} {type : DataType} {x v : Scalar} (hx : x.coerce type = x)
    (h : unaryCell op x = .ok v) : v.coerce (op.resultType type) = v := by
  obtain ⟨⟨⟩, hnumeric, h⟩ := bind_eq_ok.1 h
  obtain rfl := Except.ok.inj h
  cases op with
  | bitNot => cases x <;> cases type <;> rfl
  | neg =>
    by_cases ht : type = .float64
    · subst ht
      cases x <;> first | rfl | (cases hx; done) | cases hnumeric
    · have hresult : UnaryOp.resultType .neg type = .int64 := by
        cases type <;> first | rfl | exact absurd rfl ht
      rw [hresult]
      cases x <;> first | rfl | exact intOrFloat_int64 _ _

end Elementwise
end LazyQuery
