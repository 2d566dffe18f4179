import LazyQuery.Numbers

/-!
# Sixty-four bit integers

Which integers a signed 64-bit word can hold, and the arithmetic that notices when a result leaves
that range.
-/

set_option autoImplicit false

namespace LazyQuery.Word

open scoped Numbers

/-- The word that holds an integer, if one does. -/
def fit? (i : Int) : Option Int64 :=
  if -2 ^ 63 ≤ i ∧ i < 2 ^ 63 then some (Int64.ofInt i) else none

/-- The sum, if it fits. -/
def add? (a b : Int64) : Option Int64 := fit? (a.toInt + b.toInt)

/-- The difference, if it fits. -/
def sub? (a b : Int64) : Option Int64 := fit? (a.toInt - b.toInt)

/-- The product, if it fits. -/
def mul? (a b : Int64) : Option Int64 := fit? (a.toInt * b.toInt)

/-- The negation, if it fits. -/
def neg? (a : Int64) : Option Int64 := fit? (-a.toInt)

/-- The remainder of a division truncated toward zero. -/
def remainder (a b : Int64) : Int64 := Int64.ofInt (a.toInt.tmod b.toInt)

end LazyQuery.Word
