import LazyQuery.Decimal.Binary

/-!
# Shortest decimals

The decimal with the fewest digits that reads back as a given float, and of those the nearest to it.

A float stands for an interval of reals, those that round to it. On the grid of multiples of a power
of ten only the two neighbours of the float can be the nearest points inside that interval, so it is
enough to test these on ever finer grids, in exact integer arithmetic.

* `Interval.ofFloat` is the interval of a float.
* `Interval.onGrid` tests the two neighbours on one grid.
* `shortest` takes the first grid with a hit.
-/

set_option autoImplicit false

namespace LazyQuery.Decimal

open scoped Numbers

/-- A nonnegative decimal, `significand * 10 ^ exponent`. -/
structure Digits where
  significand : Nat
  exponent : Int
  deriving DecidableEq, Inhabited

namespace Digits

/-- The same decimal without trailing zeros in its significand; the fuel bounds their number. -/
def strip : Nat → Digits → Digits
  | 0, d => d
  | fuel + 1, d =>
    if d.significand != 0 && d.significand % 10 == 0 then
      strip fuel ⟨d.significand / 10, d.exponent + 1⟩
    else d

/-- The digits of the significand. -/
def text (d : Digits) : List Char :=
  Nat.toDigits 10 d.significand

end Digits

/-- Which neighbour is taken for a value halfway between two decimals. -/
inductive Tie
  | up
  | even
  deriving DecidableEq, Inhabited

/-- The positive reals that round to a float: bounds and value over one denominator. -/
structure Interval where
  low : Nat
  value : Nat
  high : Nat
  denominator : Nat
  /-- Do the bounds belong to the interval? -/
  closed : Bool

namespace Interval

/-- The interval of a positive finite float. Below a power of two the spacing is halved. -/
def ofFloat (x : Float) : Interval :=
  let m := Binary.mantissa x
  let q := Binary.exponent x - 2
  let below := if m = 2 ^ 52 ∧ Binary.exponent x ≠ -1074 then 1 else 2
  let scale := 2 ^ q.toNat
  ⟨(4 * m - below) * scale, 4 * m * scale, (4 * m + 2) * scale, 2 ^ (-q).toNat, m % 2 == 0⟩

/-- Is the real `p / q` in the interval, all three being over the same denominator? -/
def holds (i : Interval) (low p high : Nat) : Bool :=
  if i.closed then low ≤ p && p ≤ high else low < p && p < high

/-- The multiple of `10 ^ e` in the interval that is nearest to the value, if one is in it. -/
def onGrid (i : Interval) (tie : Tie) (e : Int) : Option Nat :=
  let up := 10 ^ (-e).toNat
  let unit := i.denominator * 10 ^ e.toNat
  let value := i.value * up
  let c := value / unit
  let r := value % unit
  let inside (k : Nat) : Bool := i.holds (i.low * up) (k * unit) (i.high * up)
  match inside c, inside (c + 1) with
  | true, true =>
    if 2 * r < unit then some c
    else if unit < 2 * r then some (c + 1)
    else match tie with
      | .up => some (c + 1)
      | .even => some (if c % 2 = 0 then c else c + 1)
  | true, false => some c
  | false, true => some (c + 1)
  | false, false => none

/-- The power of ten at or below the value: the largest `k` with `10 ^ k` at most the value. -/
def magnitude (i : Interval) : Int :=
  let guess : Int := (((i.value.log2 : Int) - (i.denominator.log2 : Int)) * 30103).fdiv 100000
  let atMost (k : Int) : Bool := 10 ^ k.toNat * i.denominator ≤ i.value * 10 ^ (-k).toNat
  match [guess + 2, guess + 1, guess, guess - 1].find? atMost with
  | some k => k
  | none => guess - 2

end Interval

/-- The decimal with the fewest digits that reads back as the positive finite float. -/
def shortest (tie : Tie) (x : Float) : Digits :=
  let i := Interval.ofFloat x
  let k := i.magnitude
  let hit := (List.range 17).findSome? fun (n : Nat) =>
    (i.onGrid tie (k - n)).map fun c => Digits.mk c (k - n)
  (hit.getD ⟨Binary.mantissa x, 0⟩).strip 400

end LazyQuery.Decimal
