import LazyQuery.Numbers

/-!
# Doubles as words

A `Double` is the word of a float. It says more than a `Float` does: undefined floats have words of
their own, which keys and the order by bit patterns tell apart.

* `Double.value` is the float of a word.
* Arithmetic is that of floats where its result is defined. An undefined operand goes through every
  operation unchanged, the first of two winning; what becomes undefined only in the operation has
  the sign bit set.
* `Double.totalRank` is the place in the order of bit patterns.
-/

set_option autoImplicit false

namespace LazyQuery

open scoped Numbers

/-- A float with the bits of an undefined one. -/
structure Double where
  bits : UInt64
  deriving DecidableEq, Inhabited

namespace Double

/-- The float. -/
def value (x : Double) : Float := Float.ofBits x.bits

/-- Is it undefined? -/
def isNaN (x : Double) : Bool := x.value.isNaN

/-- The word of a float. An undefined one has no sign. -/
def ofFloat (x : Float) : Double := ⟨x.toBits⟩

/-- The undefined float that is written `nan`. -/
def nan : Double := ⟨0x7FF8000000000000⟩

/-- The bit of the sign. -/
def signBit : UInt64 := 0x8000000000000000

/-- The bit that an undefined float has after every operation. -/
def quietBit : UInt64 := 0x0008000000000000

/-- The float with the other sign, also if it is undefined. -/
def neg (x : Double) : Double := ⟨x.bits ^^^ signBit⟩

/-- The result of an operation on some floats, from what it is as a float. -/
def ofResult (operands : List Double) (r : Float) : Double :=
  if r.isNaN then
    match operands.find? isNaN with
    | some x => ⟨x.bits ||| quietBit⟩
    | none => nan.neg
  else ofFloat r

instance : Neg Double := ⟨neg⟩

instance : Add Double := ⟨fun x y => ofResult [x, y] (x.value + y.value)⟩

instance : Sub Double := ⟨fun x y => ofResult [x, y] (x.value - y.value)⟩

instance : Mul Double := ⟨fun x y => ofResult [x, y] (x.value * y.value)⟩

instance : Div Double := ⟨fun x y => ofResult [x, y] (x.value / y.value)⟩

/-- The square root. -/
def sqrt (x : Double) : Double := ofResult [x] x.value.sqrt

/-- The double nearest to a number. -/
def ofNat (n : Nat) : Double := ofFloat (Float.ofNat n)

/-- The place of a float in the order of bit patterns: by value, with `-0.0` before `0.0`, an
undefined float with a sign before all others and one without after them. -/
def totalRank (x : Double) : Int :=
  let bits := x.bits.toNat
  if bits < 2 ^ 63 then bits else 2 ^ 63 - 1 - (bits : Int)

end Double
end LazyQuery
