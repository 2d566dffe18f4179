/-!
# Column types

The six types a column can have, and the two ways of combining them: `promote` for the operands of
an arithmetic operator, `unify` for the values seen in one column.
-/

set_option autoImplicit false

namespace LazyQuery

/-- The type of a column. `null` is the type of a column in which no value has been seen. -/
inductive DataType
  | null
  | boolean
  | int64
  | float64
  | utf8
  | binary
  deriving DecidableEq, Inhabited

namespace DataType

/-- The name a message gives the type. -/
def name : DataType → String
  | null => "Null"
  | boolean => "Boolean"
  | int64 => "Int64"
  | float64 => "Float64"
  | utf8 => "Utf8"
  | binary => "Binary"

/-- Booleans count as numbers, with the values 0 and 1. -/
def isNumeric : DataType → Bool
  | boolean | int64 | float64 => true
  | null | utf8 | binary => false

/-- The type of a numeric operation on operands of the two types. -/
def promote : DataType → DataType → DataType
  | float64, _ => float64
  | _, float64 => float64
  | null, t => t
  | t, null => t
  | int64, int64 | int64, boolean | boolean, int64 | boolean, boolean => int64
  | a, _ => a

/-- The type of a column that holds values of both types: numbers widen, and a column that mixes
text or blobs with anything else is text. -/
def unify (a b : DataType) : DataType :=
  if a = b then a
  else match a, b with
    | null, t => t
    | t, null => t
    | int64, float64 | int64, boolean | float64, int64 | float64, boolean
    | boolean, int64 | boolean, float64 => a.promote b
    | _, _ => utf8

end DataType
end LazyQuery
