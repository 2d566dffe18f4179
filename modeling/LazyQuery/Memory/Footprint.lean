import LazyQuery.Table.Basic

/-!
# Footprints

The bytes that values, columns and tables count for, and the estimate of the bytes that a number of
rows of a schema will count for. Sizes that exist are plain numbers; an estimate is a 64-bit word
that stays at the largest word when it would leave it.
-/

set_option autoImplicit false

namespace LazyQuery

open scoped Numbers

/-- The bytes of a column besides its name and its cells. -/
def columnOverhead : Nat := 24

/-- The bytes of a text or blob besides its content. -/
def varHeader : Nat := 24

/-- The content assumed for a text. -/
def assumedText : Nat := 8

/-- The content assumed for a blob. -/
def assumedBlob : Nat := 40

/-- The bytes of a cell. -/
def Scalar.bytes : Scalar → Nat
  | null | bool _ => 1
  | int _ | float _ => 8
  | text s => varHeader + s.utf8ByteSize
  | blob bs => varHeader + bs.length

/-- The bytes of a list of cells. -/
def cellBytes (values : List Scalar) : Nat := (values.map Scalar.bytes).sum

/-- The bytes of a column. -/
def Column.bytes (c : Column) : Nat :=
  columnOverhead + c.name.utf8ByteSize + cellBytes c.values

/-- The bytes of a table. -/
def Table.bytes (t : Table) : Nat := (t.columns.map Column.bytes).sum

/-- The bytes of a cell of a type. -/
def DataType.width : DataType → Nat
  | null | boolean => 1
  | int64 | float64 => 8
  | utf8 => varHeader + assumedText
  | binary => varHeader + assumedBlob

/-- The largest 64-bit word, as a number. -/
def maxWord : Nat := 2 ^ 64 - 1

/-- The word for a number, or the largest word. -/
def saturated (n : Nat) : UInt64 := UInt64.ofNat (min n maxWord)

/-- The sum of two words, or the largest word. -/
def saturatingAdd (a b : UInt64) : UInt64 := saturated (a.toNat + b.toNat)

/-- The difference of two words, or zero. -/
def saturatingSub (a b : UInt64) : UInt64 := if b ≤ a then a - b else 0

namespace Schema

/-- The bytes of a row, at least one. -/
def rowWidth (s : Schema) : Nat := max (s.fields.map fun f => f.type.width).sum 1

/-- The bytes of the columns without their cells. -/
def headerBytes (s : Schema) : Nat :=
  (s.fields.map fun f => columnOverhead + f.name.utf8ByteSize).sum

/-- The bytes estimated for a number of rows. -/
def estimateBytes (s : Schema) (rows : UInt64) : UInt64 :=
  saturatingAdd (UInt64.ofNat s.headerBytes) (saturated (rows.toNat * s.rowWidth))

end Schema
end LazyQuery
