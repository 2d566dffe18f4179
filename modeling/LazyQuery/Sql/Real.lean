import LazyQuery.Decimal.Extended
import LazyQuery.Decimal.Layout

/-!
# Floats as decimals in the store

How the store writes a float with fifteen digits and how it reads a decimal. Both go step by step
through numbers of 64 significant bits, by powers of ten, and each step rounds: the last digit
written and the last bit read can differ from those of the exact value.

* `realDigits` brings a float to between 18 and 19 digits before the point and keeps fifteen of
  them.
* `readReal` scales the significant digits of a decimal.
-/

set_option autoImplicit false

namespace LazyQuery.Sql

open scoped Numbers

/-- Multiply a number by a power of ten as long as it is asked for, at most as often as the fuel
allows. The decimal exponent beside it is kept up. -/
def scaleWhile (again : Extended → Bool) (power : Int) : Nat → Extended × Int → Extended × Int
  | 0, x => x
  | fuel + 1, (x, e) =>
    if again x then scaleWhile again power fuel (x.mul (.powerOfTen power), e - power) else (x, e)

/-! ## Writing -/

/-- The bounds above which a large number is divided by a power of ten, as exponents of ten. -/
def lowering : List (Int × Int) := [(119, 100), (29, 10), (19, 1)]

/-- The bounds below which a small number is multiplied by a power of ten, as exponents of ten. -/
def raising : List (Int × Int) := [(-97, 100), (7, 10), (17, 1)]

/-- A number below `1e19` and not below `1e17`, and the exponent of the power of ten to multiply it
with. -/
def toWholeDigits (x : Extended) : Extended × Int :=
  if x.isBelow (.powerOfTen 19) then
    raising.foldl (fun p (bound, power) =>
      scaleWhile (fun r => r.isBelow (.powerOfTen bound)) power 20 p) (x, 0)
  else
    lowering.foldl (fun p (bound, power) =>
      scaleWhile (fun r => !r.isBelow (.powerOfTen bound)) (-power) 20 p) (x, 0)

/-- The digits that the store keeps. -/
def realPrecision : Nat := 15

/-- The fifteen digits that a positive finite float is written with; the digit after them decides
whether they are rounded up. -/
def realDigits (x : Float) : Decimal.Digits :=
  let (r, e) := toWholeDigits (.ofFloat x)
  let whole := r.floor
  let excess := (Nat.toDigits 10 whole).length - realPrecision
  Decimal.Digits.strip 20 ⟨(whole / 10 ^ (excess - 1) + 5) / 10, e + excess⟩

/-- Floats are positional from `0.0001` to below `1e15`. -/
def realLayout : Decimal.Layout where
  digits := realDigits
  leastPoint := -3
  mostPoint := 15
  wholeMantissaPoint := true
  exponentPlus := true
  exponentWidth := 2
  signedZero := false
  undefinedText := ""
  infinityText := "Inf"

/-! ## Reading -/

/-- A significand that has reached this takes no more digits. -/
def digitBound : Nat := (2 ^ 64 - 10) / 10

/-- A significand that has reached this is not multiplied by ten any more. -/
def shiftBound : Nat := (2 ^ 64 - 1) / 10

/-- Take digits into a significand as long as there is room, and count those left over. -/
def takeSignificant : Nat → List Char → Nat × Nat
  | s, [] => (s, 0)
  | s, c :: cs =>
    if s < digitBound then takeSignificant (10 * s + (c.toNat - '0'.toNat)) cs
    else (s, cs.length + 1)

/-- The same decimal with a positive exponent made smaller as long as there is room; the fuel bounds
the steps. -/
def shiftUp : Nat → Nat × Int → Nat × Int
  | 0, d => d
  | fuel + 1, (s, e) => if 0 < e ∧ s < shiftBound then shiftUp fuel (10 * s, e - 1) else (s, e)

/-- The same decimal with zeros at the end of its significand moved into a negative exponent; the
fuel bounds the steps. -/
def shiftDown : Nat → Nat × Int → Nat × Int
  | 0, d => d
  | fuel + 1, (s, e) => if e < 0 ∧ s % 10 = 0 then shiftDown fuel (s / 10, e + 1) else (s, e)

/-- A number times a power of ten, by hundreds, tens and ones of the exponent. -/
def scaleByTens (x : Extended) (e : Int) : Extended :=
  let n := e.natAbs
  let times (x : Extended) (count : Nat) (power : Int) : Extended :=
    (scaleWhile (fun _ => true) (if e < 0 then -power else power) count (x, 0)).1
  times (times (times x (n / 100) 100) (n % 100 / 10) 10) (n % 10) 1

/-- The largest finite float. -/
def largestReal : Extended := ⟨2 ^ 53 - 1, 971⟩

/-- The float that the store reads `± significand * 10 ^ exponent` as. A decimal far outside the
range of floats is settled by its magnitude alone. -/
def readReal (negative : Bool) (significand : Nat) (exponent : Int) : Float :=
  let ds := Nat.toDigits 10 significand
  let size : Int := ds.length + exponent
  let magnitude : Float :=
    if significand = 0 ∨ size < -400 then 0.0
    else if 400 < size then Binary.infinity
    else
      let (s, left) := takeSignificant 0 ds
      let (s, e) := shiftDown 20 (shiftUp 20 (s, exponent + left))
      let r := scaleByTens ⟨s, 0⟩ e
      if largestReal.isBelow r then Binary.infinity else r.toFloat
  if negative then -magnitude else magnitude

end LazyQuery.Sql
