import LazyQuery.Decimal.Binary
import LazyQuery.Scalar.Basic

/-!
# The order of cell values

`compare` orders cells for sorting, grouping and comparisons: missing values first, then numbers and
truth values by value, then texts, then blobs. `compareTuple` extends it to tuples, position by
position, a shorter tuple coming before its extensions.
-/

set_option autoImplicit false

namespace LazyQuery.Scalar

/-- The place of a value's kind among the kinds. -/
def kindRank : Scalar → Nat
  | null => 0
  | bool _ | int _ | float _ => 1
  | text _ => 2
  | blob _ => 3

/-- The lexicographic order of byte strings. -/
def compareBytes : List UInt8 → List UInt8 → Ordering
  | [], [] => .eq
  | [], _ :: _ => .lt
  | _ :: _, [] => .gt
  | a :: as, b :: bs =>
    match Ord.compare a.toNat b.toNat with
    | .eq => compareBytes as bs
    | o => o

/-- The lexicographic order of texts by code point. -/
def compareChars : List Char → List Char → Ordering
  | [], [] => .eq
  | [], _ :: _ => .lt
  | _ :: _, [] => .gt
  | a :: as, b :: bs =>
    match Ord.compare a.toNat b.toNat with
    | .eq => compareChars as bs
    | o => o

/-- The order of two values. Integers and truth values are compared as integers, and numbers of
which one is a float as floats. -/
def compare (a b : Scalar) : Ordering :=
  match a, b with
  | null, null => .eq
  | null, _ => .lt
  | _, null => .gt
  | text x, text y => compareChars x.toList y.toList
  | blob x, blob y => compareBytes x y
  | a, b =>
    match a.int?, b.int?, a.float?, b.float? with
    | some x, some y, _, _ => Ord.compare x.toInt y.toInt
    | _, _, some x, some y => Binary.compareFloat x.value y.value
    | _, _, _, _ => Ord.compare a.kindRank b.kindRank

/-- The order of two tuples. -/
def compareTuple : List Scalar → List Scalar → Ordering
  | [], [] => .eq
  | [], _ :: _ => .lt
  | _ :: _, [] => .gt
  | a :: as, b :: bs =>
    match compare a b with
    | .eq => compareTuple as bs
    | o => o

end LazyQuery.Scalar
