import LazyQuery.Numbers

/-!
# The exact value of a float

A finite double is `± mantissa * 2 ^ exponent`. The functions here read that form off the bits and
answer exact questions about it: is it an integer, which integer lies next to it toward zero, how
does it compare with an integer or with another float.
-/

set_option autoImplicit false

namespace LazyQuery.Binary

open scoped Numbers

/-- Positive infinity. -/
def infinity : Float := Float.ofBits 0x7FF0000000000000

/-- Is the sign bit set? -/
def isNegative (x : Float) : Bool :=
  2 ^ 63 ≤ x.toBits.toNat

/-- The eleven bits of the exponent field. -/
def exponentField (x : Float) : Nat :=
  x.toBits.toNat / 2 ^ 52 % 2 ^ 11

/-- The mantissa of a finite float, as an integer. -/
def mantissa (x : Float) : Nat :=
  let fraction := x.toBits.toNat % 2 ^ 52
  if exponentField x = 0 then fraction else fraction + 2 ^ 52

/-- The power of two that goes with `mantissa`. -/
def exponent (x : Float) : Int :=
  if exponentField x = 0 then -1074 else (exponentField x : Int) - 1075

/-- Neither infinite nor undefined. -/
def isFinite (x : Float) : Bool :=
  exponentField x != 2 ^ 11 - 1

/-- The magnitude of a finite float without its fraction. -/
def truncatedMagnitude (x : Float) : Nat :=
  let q := exponent x
  if 0 ≤ q then mantissa x * 2 ^ q.toNat else mantissa x / 2 ^ (-q).toNat

/-- A finite float without its fraction. -/
def truncated (x : Float) : Int :=
  if isNegative x then -(truncatedMagnitude x : Int) else truncatedMagnitude x

/-- Is the float a finite integer? -/
def isIntegral (x : Float) : Bool :=
  isFinite x &&
    (let q := exponent x
     decide (0 ≤ q) || mantissa x % 2 ^ (-q).toNat == 0)

/-- The integer next to the float toward zero, held to the range of 64-bit integers; zero for an
undefined float. -/
def toInt64 (x : Float) : Int64 :=
  if x.isNaN then 0
  else if isFinite x then Int64.ofIntClamp (truncated x)
  else if isNegative x then Int64.minValue
  else Int64.maxValue

/-- The order of an integer and a defined float, as numbers. -/
def compareInt (i : Int) (x : Float) : Ordering :=
  if isFinite x then
    let signed : Int := if isNegative x then -(mantissa x : Int) else mantissa x
    let q := exponent x
    if 0 ≤ q then compare i (signed * 2 ^ q.toNat)
    else compare (i * 2 ^ (-q).toNat) signed
  else if isNegative x then .gt
  else .lt

/-- The order of two floats as numbers; an undefined float is greater than all others and equal to
itself. -/
def compareFloat (x y : Float) : Ordering :=
  if x.isNaN && y.isNaN then .eq
  else if x.isNaN then .gt
  else if y.isNaN then .lt
  else if x < y then .lt
  else if y < x then .gt
  else .eq

end LazyQuery.Binary
