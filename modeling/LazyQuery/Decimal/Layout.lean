import LazyQuery.Decimal.Shortest

/-!
# Layouts of float text

Once its digits are chosen, a float is written positionally or with an exponent. A `Layout` records
where positional writing ends and how an exponent looks; `Layout.write` sets the digits out by it.
-/

set_option autoImplicit false

namespace LazyQuery.Decimal

/-- The decisions of a float format. -/
structure Layout where
  /-- The digits of a positive finite float. -/
  digits : Float → Digits
  /-- The point stands at least here for positional writing: `0` is in front of the first digit. -/
  leastPoint : Int
  /-- The point stands at most here for positional writing. -/
  mostPoint : Int
  /-- Does a one-digit mantissa before an exponent get a fraction `.0`? -/
  wholeMantissaPoint : Bool
  /-- Does a positive exponent carry a sign? -/
  exponentPlus : Bool
  /-- The least number of digits in an exponent. -/
  exponentWidth : Nat
  /-- Is the sign of a negative zero shown? -/
  signedZero : Bool
  /-- The text of an undefined float. -/
  undefinedText : String
  /-- The text of positive infinity. -/
  infinityText : String

namespace Layout

/-- Zeros. -/
def zeros (n : Nat) : List Char := List.replicate n '0'

/-- The exponent after its mark. -/
def exponentText (l : Layout) (e : Int) : List Char :=
  let ds := Nat.toDigits 10 e.natAbs
  let sign := if e < 0 then ['-'] else if l.exponentPlus then ['+'] else []
  sign ++ zeros (l.exponentWidth - ds.length) ++ ds

/-- Digits with the point after the first `point` of them. -/
def positional (ds : List Char) (point : Int) : List Char :=
  if point ≤ 0 then ['0', '.'] ++ zeros (-point).toNat ++ ds
  else if point < ds.length then ds.take point.toNat ++ ['.'] ++ ds.drop point.toNat
  else ds ++ zeros (point.toNat - ds.length) ++ ['.', '0']

/-- Digits as a mantissa and an exponent. -/
def scientific (l : Layout) (ds : List Char) (point : Int) : List Char :=
  let fraction :=
    match ds.drop 1 with
    | [] => if l.wholeMantissaPoint then ['.', '0'] else []
    | rest => '.' :: rest
  ds.take 1 ++ fraction ++ ['e'] ++ l.exponentText (point - 1)

/-- The text of a positive finite float. -/
def magnitude (l : Layout) (x : Float) : List Char :=
  let d := l.digits x
  let ds := d.text
  let point : Int := ds.length + d.exponent
  if l.leastPoint ≤ point ∧ point ≤ l.mostPoint then positional ds point
  else l.scientific ds point

/-- The text of a float. -/
def write (l : Layout) (x : Float) : String :=
  let sign := if Binary.isNegative x then "-" else ""
  if x.isNaN then l.undefinedText
  else if !Binary.isFinite x then sign ++ l.infinityText
  else if Binary.mantissa x = 0 then (if l.signedZero then sign else "") ++ "0.0"
  else sign ++ String.ofList (l.magnitude x.abs)

end Layout
end LazyQuery.Decimal
