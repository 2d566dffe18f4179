import LazyQuery.DataType
import LazyQuery.Decimal.Double

/-!
# Cell values

A `Scalar` is one cell of a table. This module gives its type, its views as a number and as a truth
value, and its conversion to a declared column type after a stay in a store that keeps fewer types.
-/

set_option autoImplicit false

namespace LazyQuery

/-- The value of a cell. -/
inductive Scalar
  | null
  | bool (b : Bool)
  | int (i : Int64)
  | float (x : Double)
  | text (s : String)
  | blob (bytes : List UInt8)
  deriving DecidableEq, Inhabited

/-- The float nearest to an integer. -/
def floatOfInt (i : Int64) : Float := Float.ofInt i.toInt

/-- The double nearest to an integer. -/
def doubleOfInt (i : Int64) : Double := .ofFloat (floatOfInt i)

namespace Scalar

/-- The type a value shows by itself. -/
def dataType : Scalar → DataType
  | null => .null
  | bool _ => .boolean
  | int _ => .int64
  | float _ => .float64
  | text _ => .utf8
  | blob _ => .binary

/-- Is the value missing? -/
def isNull : Scalar → Bool
  | null => true
  | _ => false

/-- A truth value as the integer 0 or 1. -/
def bit (b : Bool) : Int64 := if b then 1 else 0

/-- The value as a float, for numbers and truth values. -/
def float? : Scalar → Option Double
  | bool b => some (doubleOfInt (bit b))
  | int i => some (doubleOfInt i)
  | float x => some x
  | _ => none

/-- The value as an integer, for integers and truth values. -/
def int? : Scalar → Option Int64
  | bool b => some (bit b)
  | int i => some i
  | _ => none

/-- The truth of a value: numbers other than zero and nonempty texts and blobs are true. A missing
value has none. -/
def truth? : Scalar → Option Bool
  | null => none
  | bool b => some b
  | int i => some (i != 0)
  | float x => some (x.value != 0.0)
  | text s => some (!s.isEmpty)
  | blob bytes => some (!bytes.isEmpty)

/-- The truth value, or null if there is none. -/
def ofTruth : Option Bool → Scalar
  | some b => bool b
  | none => null

/-- The value in a column of the given type, where the type is one that a store without truth values
can have lost. -/
def coerce (target : DataType) (v : Scalar) : Scalar :=
  match target, v with
  | .boolean, int i => bool (i != 0)
  | .boolean, float x => bool (x.value != 0.0)
  | .float64, int i => float (doubleOfInt i)
  | .float64, bool b => float (doubleOfInt (bit b))
  | .int64, bool b => int (bit b)
  | _, v => v

end Scalar
end LazyQuery
