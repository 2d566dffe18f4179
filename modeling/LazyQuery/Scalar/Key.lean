import LazyQuery.Scalar.Order

/-!
# Keys

Rows are grouped, joined and de-duplicated by the key of some of their cells: a string of bytes in
which each cell is framed by its kind and, where its length varies, by its length. Truth values,
integers and integral floats of one value have one frame, as they are equal in a comparison.

* `frame` is the frame of a cell.
* `keyOf` is the key of a tuple, the frames of its cells in a row.
-/

set_option autoImplicit false

namespace LazyQuery

open scoped Numbers

/-- The key of a tuple of cells. -/
abbrev Key := List UInt8

namespace Scalar

/-- The low `n` bytes of a number, the lowest first. -/
def littleEndian : Nat → Nat → List UInt8
  | 0, _ => []
  | n + 1, v => UInt8.ofNat v :: littleEndian n (v / 256)

/-- The eight bytes of a word. -/
def wordBytes (w : UInt64) : List UInt8 := littleEndian 8 w.toNat

/-- Is the float an integer small enough to be framed as one? -/
def framesAsInt (x : Float) : Bool :=
  Binary.isIntegral x && x.abs < Float.ofNat (2 ^ 63)

/-- The bytes of a cell after its kind. -/
def payload : Scalar → List UInt8
  | null => []
  | bool b => wordBytes (bit b).toUInt64
  | int i => wordBytes i.toUInt64
  | float x =>
    if framesAsInt x.value then wordBytes (Binary.toInt64 x.value).toUInt64
    else wordBytes x.bits
  | text s => littleEndian 8 s.utf8ByteSize ++ s.toUTF8.toList
  | blob bytes => littleEndian 8 bytes.length ++ bytes

/-- A cell as part of a key. -/
def frame (v : Scalar) : List UInt8 :=
  UInt8.ofNat v.kindRank :: v.payload

/-- The key of a tuple of cells. -/
def keyOf (cells : List Scalar) : Key :=
  cells.flatMap frame

end Scalar
end LazyQuery
