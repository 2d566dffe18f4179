import LazyQuery.Table.Basic

/-!
# Summary statistics

`describe` yields one row per statistic and one column per input column, after a column of labels. A
column that holds anything but numbers, or no value at all, reports its count only.
-/

set_option autoImplicit false

namespace LazyQuery.Describe

/-- The name of the label column. -/
def labelColumn : String := "statistic"

/-- The statistics, in row order. -/
def statistics : List String := ["count", "mean", "std", "min", "25%", "50%", "75%", "max"]

/-- The schema of the statistics of a table. -/
def schema (input : Schema) : Schema :=
  ⟨⟨labelColumn, .utf8, false⟩ :: input.fields.map fun f => ⟨f.name, .float64, true⟩⟩

/-- The sum of floats, from the left. Nothing sums to a negative zero, which leaves every value that
is added to it unchanged. -/
def sum (xs : List Double) : Double := xs.foldl (· + ·) (.ofFloat (-0.0))

/-- The value at a fraction of the way through sorted floats, interpolated between neighbours. -/
def quantile (sorted : List Double) (fraction : Float) : Double :=
  let zero := Double.ofFloat 0.0
  let position := fraction * Float.ofNat (sorted.length - 1)
  let lo := Binary.truncatedMagnitude position
  let hi := if Binary.isIntegral position then lo else lo + 1
  let a := sorted.getD lo zero
  let b := sorted.getD hi zero
  a + (b - a) * .ofFloat (position - Float.ofNat lo)

/-- The deviation of a sample from its mean, which a single value does not have. -/
def deviation (xs : List Double) (mean : Double) : Scalar :=
  if xs.length ≤ 1 then .null
  else
    let squares := xs.map fun x => (x - mean) * (x - mean)
    .float (sum squares / .ofNat (xs.length - 1)).sqrt

/-- The statistics of a column. -/
def columnStats (values : List Scalar) : List Scalar :=
  let count := (values.filter fun v => !v.isNull).length
  let xs := (values.filterMap Scalar.float?).mergeSort fun x y =>
    x.totalRank ≤ y.totalRank
  let head := Scalar.float (.ofNat count)
  if xs.length = count ∧ 0 < count then
    let mean := sum xs / .ofNat xs.length
    [head, .float mean, deviation xs mean, .float (xs.headD default), .float (quantile xs 0.25),
      .float (quantile xs 0.5), .float (quantile xs 0.75), .float (xs.getLastD default)]
  else head :: List.replicate (statistics.length - 1) .null

/-- The statistics of a table. -/
def describe (t : Table) : Except FrameError Table :=
  (Table.ofColumns (⟨labelColumn, statistics.map .text⟩ ::
    t.columns.map fun c => ⟨c.name, columnStats c.values⟩)).mapError fun e =>
      .plan (.construction e)

end LazyQuery.Describe
