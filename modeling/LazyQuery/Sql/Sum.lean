import LazyQuery.Sql.Datum
import LazyQuery.Decimal.Word

/-!
# Sums and products of stored values

The running results behind the aggregates of the relational store.

* A sum is an exact integer until it meets a float or overflows; from then on it is a float with the
  rounding error of its additions beside it, which is added back at the end. An overflow that no
  float follows is refused.
* A product is an integer until it meets a float or overflows. A text or blob is refused.
-/

set_option autoImplicit false

namespace LazyQuery.Sql

open scoped Numbers

/-- A sum underway. -/
inductive RunningSum
  | exact (total : Int64)
  /-- A float, its accumulated error, and whether integers alone overflowed into it. -/
  | compensated (total error : Float) (overflowed : Bool)

namespace RunningSum

/-- Integers of at least this size are added in two parts. -/
def wideBound : Int := 2 ^ 52

/-- The weight of the upper part. -/
def wideStep : Int := 2 ^ 14

/-- The upper and lower parts of an integer. -/
def parts (i : Int64) : Int × Int :=
  let low := i.toInt.tmod wideStep
  (i.toInt - low, low)

/-- Add a float to a float with its error. -/
def addFloat (total error x : Float) : Float × Float :=
  let sum := total + x
  if x.abs < total.abs then (sum, error + ((total - sum) + x))
  else (sum, error + ((x - sum) + total))

/-- Add an integer to a float with its error. -/
def addInt (total error : Float) (i : Int64) : Float × Float :=
  if i.toInt ≤ -wideBound ∨ wideBound ≤ i.toInt then
    let (high, low) := parts i
    let (total, error) := addFloat total error (Float.ofInt high)
    addFloat total error (Float.ofInt low)
  else addFloat total error (floatOfInt i)

/-- An integer as a float with its error. -/
def start (i : Int64) : Float × Float :=
  if i.toInt ≤ -wideBound ∨ wideBound ≤ i.toInt then
    let (high, low) := parts i
    (Float.ofInt high, Float.ofInt low)
  else (floatOfInt i, 0.0)

/-- Take in one more value. -/
def step (s : RunningSum) (v : Datum) : RunningSum :=
  match s, v.toSummand with
  | exact a, .integer b =>
    match Word.add? a b with
    | some c => exact c
    | none =>
      let (total, error) := start a
      let (total, error) := addInt total error b
      compensated total error true
  | exact a, .real x =>
    let (total, error) := start a
    let (total, error) := addFloat total error x
    compensated total error false
  | compensated total error overflowed, .integer b =>
    let (total, error) := addInt total error b
    compensated total error overflowed
  | compensated total error _, .real x =>
    let (total, error) := addFloat total error x
    compensated total error false
  | s, _ => s

/-- A float with its error added back, unless that is undefined. -/
def settle (total error : Float) : Float :=
  if error.isNaN || error.isInf then total else total + error

/-- The sum of values none of which is null; 0 without any. -/
def sum? (values : List Datum) : Option Datum :=
  match values.foldl step (exact 0) with
  | exact i => some (.integer i)
  | compensated total error overflowed =>
    if overflowed then none else some (Datum.ofFloat (settle total error))

/-- The mean of values none of which is null; null without any. -/
def mean (values : List Datum) : Datum :=
  if values.isEmpty then .null
  else
    let total :=
      match values.foldl step (exact 0) with
      | exact i => floatOfInt i
      | compensated total error _ => settle total error
    Datum.ofFloat (total / Float.ofNat values.length)

end RunningSum

/-- A product underway: an integer or a float. -/
inductive RunningProduct
  | exact (total : Int64)
  | inexact (total : Float)
  deriving DecidableEq

namespace RunningProduct

/-- Take in one more value. Null is passed over. -/
def step? (p : RunningProduct) (v : Datum) : Option RunningProduct :=
  match p, v with
  | p, .null => some p
  | exact a, .integer b =>
    match Word.mul? a b with
    | some c => some (exact c)
    | none => some (inexact (floatOfInt a * floatOfInt b))
  | inexact a, .integer b => some (inexact (a * floatOfInt b))
  | exact a, .real x => some (inexact (floatOfInt a * x))
  | inexact a, .real x => some (inexact (a * x))
  | _, .text _ | _, .blob _ => none

/-- The product as it is returned. A float may be undefined. -/
def value : RunningProduct → Datum
  | exact i => .integer i
  | inexact x => .real x

/-- The product of values; 1 without any. -/
def product? (values : List Datum) : Option Datum :=
  (values.foldlM step? (exact 1)).map value

end RunningProduct
end LazyQuery.Sql
