import LazyQuery.Decimal.Binary

/-!
# Floats with long significands

Numbers on the way between a double and its decimal text are kept with 64 significant bits rather
than 53. An `Extended` is a nonnegative `significand * 2 ^ exponent`; its exponent has no bounds.

* `Extended.rounded` cuts a significand to 64 bits, a half going to the even neighbour.
* `Extended.mul` is a product rounded in this way, and `Extended.powerOfTen` a rounded power.
* `Extended.ofFloat` is exact and `Extended.toFloat` is the nearest double.
-/

set_option autoImplicit false

namespace LazyQuery

open scoped Numbers

/-- The number `significand * 2 ^ exponent`. -/
structure Extended where
  significand : Nat
  exponent : Int
  deriving DecidableEq, Inhabited

namespace Extended

/-- The bits of a significand. -/
def precision : Nat := 64

/-- The integer nearest to `n / 2 ^ k`, a half going to the even neighbour. -/
def shiftedEven (n k : Nat) : Nat :=
  let q := n / 2 ^ k
  let twice := 2 * (n % 2 ^ k)
  if 2 ^ k < twice ∨ (twice = 2 ^ k ∧ q % 2 = 1) then q + 1 else q

/-- The number with a significand of at most 64 bits that is nearest to another one. -/
def rounded (x : Extended) : Extended :=
  let excess := x.significand.log2 + 1 - precision
  ⟨shiftedEven x.significand excess, x.exponent + excess⟩

/-- The number nearest to a positive quotient. The last bit stands for all that follows it. -/
def ofRatio (num den : Nat) : Extended :=
  let shift := precision + 2 + den.log2 - num.log2
  let scaled := num * 2 ^ shift
  let tail := if scaled % den = 0 then 0 else 1
  rounded ⟨2 * (scaled / den) + tail, -(shift + 1 : Nat)⟩

/-- The number nearest to a power of ten. -/
def powerOfTen (e : Int) : Extended :=
  if 0 ≤ e then rounded ⟨10 ^ e.toNat, 0⟩ else ofRatio 1 (10 ^ (-e).toNat)

/-- The product, rounded. -/
def mul (x y : Extended) : Extended :=
  rounded ⟨x.significand * y.significand, x.exponent + y.exponent⟩

/-- Is the first number smaller than the second? -/
def isBelow (x y : Extended) : Bool :=
  let e := min x.exponent y.exponent
  x.significand * 2 ^ (x.exponent - e).toNat < y.significand * 2 ^ (y.exponent - e).toNat

/-- The number without its fraction. -/
def floor (x : Extended) : Nat :=
  if 0 ≤ x.exponent then x.significand * 2 ^ x.exponent.toNat
  else x.significand / 2 ^ (-x.exponent).toNat

/-- The magnitude of a finite float. -/
def ofFloat (x : Float) : Extended := ⟨Binary.mantissa x, Binary.exponent x⟩

/-- The nearest float, a half going to the even neighbour. The bits of a float count upwards from
zero in the order of magnitudes, so a significand that is rounded up to the next power of two
carries into the exponent. -/
def toFloat (x : Extended) : Float :=
  let size : Int := x.significand.log2 + 1 + x.exponent
  let q := max (size - 53) (-1074)
  let m :=
    if q ≤ x.exponent then x.significand * 2 ^ (x.exponent - q).toNat
    else shiftedEven x.significand (q - x.exponent).toNat
  let bits := (q + 1074).toNat * 2 ^ 52 + m
  if x.significand = 0 then 0.0
  else if Binary.infinity.toBits.toNat ≤ bits then Binary.infinity
  else Float.ofBits (UInt64.ofNat bits)

end Extended
end LazyQuery
