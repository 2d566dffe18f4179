import LazyQuery.Error
import LazyQuery.Scalar.Order
import LazyQuery.Decimal.Word
import LazyQuery.Text.Like

/-!
# Operators on columns

Comparisons, patterns, three-valued logic and arithmetic, applied cell by cell to columns of one
length. A null operand makes a null result, except for `isNull` and where a conjunction or
disjunction is settled by its other operand.

* Integer arithmetic that leaves 64 bits continues in floats.
* Division always yields a float, and division by zero yields null.
* A remainder, and every bitwise operator, works on operands truncated to integers.
-/

set_option autoImplicit false

namespace LazyQuery.Elementwise

/-- Columns of different lengths cannot be combined. -/
def checkLength (a b : List Scalar) : Except FrameError Unit :=
  if a.length = b.length then pure () else throw (.length a.length b.length)

/-! ## Conditions -/

/-- A comparison of two cells. -/
def compareCells (op : CompareOp) (x y : Scalar) : Scalar :=
  if x.isNull || y.isNull then .null else .bool (op.holds (Scalar.compare x y))

/-- A comparison of two columns. -/
def compare (op : CompareOp) (a b : List Scalar) : Except FrameError (List Scalar) := do
  checkLength a b
  pure (List.zipWith (compareCells op) a b)

/-- Which cells are null. -/
def isNull (a : List Scalar) : List Scalar :=
  a.map fun v => .bool v.isNull

/-- Does the plain text of a cell match a pattern? -/
def likeCell (pattern : String) : Scalar → Scalar
  | .null => .null
  | v => .bool (Like.isMatch pattern v.display)

/-- Which cells match a pattern. -/
def like (pattern : String) (a : List Scalar) : List Scalar :=
  a.map (likeCell pattern)

/-- The conjunction of two truth values, either of which may be missing. -/
def conjunction : Option Bool → Option Bool → Option Bool
  | some false, _ | _, some false => some false
  | some true, some true => some true
  | _, _ => none

/-- The disjunction of two truth values, either of which may be missing. -/
def disjunction : Option Bool → Option Bool → Option Bool
  | some true, _ | _, some true => some true
  | some false, some false => some false
  | _, _ => none

/-- The negation of the truth of each cell. -/
def not (a : List Scalar) : List Scalar :=
  a.map fun v => Scalar.ofTruth (v.truth?.map (!·))

/-- A connective of two columns; the second is not used for a negation. -/
def logical (op : Connective) (a b : List Scalar) : Except FrameError (List Scalar) :=
  let combined (f : Option Bool → Option Bool → Option Bool) : Except FrameError (List Scalar) := do
    checkLength a b
    pure (List.zipWith (fun x y => Scalar.ofTruth (f x.truth? y.truth?)) a b)
  match op with
  | .not => pure (not a)
  | .and => combined conjunction
  | .or => combined disjunction

/-! ## Arithmetic -/

/-- Texts and blobs are no operands of arithmetic. -/
def checkNumeric (op : String) (v : Scalar) : Except FrameError Unit :=
  match v with
  | .text _ | .blob _ => throw (.type (.undefinedOperator op v.dataType))
  | _ => pure ()

/-- A cell as an integer; a float loses its fraction. -/
def intOf : Scalar → Int64
  | .float x => Binary.toInt64 x.value
  | v => v.int?.getD 0

/-- A cell as a float. -/
def floatOf (v : Scalar) : Double := v.float?.getD (.ofFloat 0.0)

/-- Sum, difference or product where it fits, else its float. -/
def intOrFloat (exact : Option Int64) (inexact : Double) : Scalar :=
  match exact with
  | some i => .int i
  | none => .float inexact

/-- Are both cells integers or truth values? -/
def bothInt (x y : Scalar) : Bool := x.int?.isSome && y.int?.isSome

/-- A binary operator on numbers. -/
def arithNumbers (op : ArithOp) (x y : Scalar) : Scalar :=
  let fx := floatOf x
  let fy := floatOf y
  let ix := intOf x
  let iy := intOf y
  match op with
  | .bitAnd => .int (ix &&& iy)
  | .bitOr => .int (ix ||| iy)
  | .bitXor => .int (ix ^^^ iy)
  | .div => if fy.value == 0.0 then .null else .float (fx / fy)
  | .rem =>
    if iy = 0 then .null
    else if bothInt x y then .int (Word.remainder ix iy)
    else .float (doubleOfInt (Word.remainder ix iy))
  | .add => if bothInt x y then intOrFloat (Word.add? ix iy) (fx + fy) else .float (fx + fy)
  | .sub => if bothInt x y then intOrFloat (Word.sub? ix iy) (fx - fy) else .float (fx - fy)
  | .mul => if bothInt x y then intOrFloat (Word.mul? ix iy) (fx * fy) else .float (fx * fy)

/-- A binary operator on two cells. -/
def arithCells (op : ArithOp) (x y : Scalar) : Except FrameError Scalar := do
  checkNumeric op.symbol x
  checkNumeric op.symbol y
  pure (if x.isNull || y.isNull then .null else arithNumbers op x y)

/-- A binary operator on two columns. -/
def arith (op : ArithOp) (a b : List Scalar) : Except FrameError (List Scalar) := do
  checkLength a b
  (a.zip b).mapM fun (x, y) => arithCells op x y

/-- A unary operator on a cell. -/
def unaryCell (op : UnaryOp) (v : Scalar) : Except FrameError Scalar := do
  checkNumeric "unary" v
  pure <| match op, v with
    | _, .null => .null
    | .neg, .float x => .float (-x)
    | .neg, v => intOrFloat (Word.neg? (intOf v)) (-doubleOfInt (intOf v))
    | .bitNot, v => .int (~~~intOf v)

/-- A unary operator on a column. -/
def unary (op : UnaryOp) (a : List Scalar) : Except FrameError (List Scalar) :=
  a.mapM (unaryCell op)

end LazyQuery.Elementwise
