import LazyQuery.Scalar.Basic
import LazyQuery.Decimal.Layout
import LazyQuery.Text.Quoted

/-!
# Cell values as text

Two texts of a cell: `display`, which is what pattern matching sees and what a mixed column keeps,
and `described`, which messages show.
-/

set_option autoImplicit false

namespace LazyQuery.Scalar

/-- Floats have their shortest digits, positional from `0.0001` to below `1e16`. -/
def floatLayout : Decimal.Layout where
  digits := Decimal.shortest .up
  leastPoint := -3
  mostPoint := 16
  wholeMantissaPoint := false
  exponentPlus := false
  exponentWidth := 1
  signedZero := true
  undefinedText := "NaN"
  infinityText := "inf"

/-- The text of a truth value. -/
def boolText (b : Bool) : String := if b then "true" else "false"

/-- The text of an integer. -/
def intText (i : Int64) : String := toString i.toInt

/-- The plain text of a value. A blob shows only its size. -/
def display : Scalar → String
  | null => "NULL"
  | bool b => boolText b
  | int i => intText i
  | float x => floatLayout.write x.value
  | text s => s
  | blob bytes => "<" ++ toString bytes.length ++ " bytes>"

/-- The text of a value in a message, which names its kind. -/
def described : Scalar → String
  | null => "Null"
  | bool b => "Bool(" ++ boolText b ++ ")"
  | int i => "I64(" ++ intText i ++ ")"
  | float x => "F64(" ++ floatLayout.write x.value ++ ")"
  | text s => "Str(" ++ Text.quoted s ++ ")"
  | blob bytes =>
    "Bin([" ++ Text.commaSeparated (bytes.map fun b => toString b.toNat) ++ "])"

end LazyQuery.Scalar
