import LazyQuery.Decimal.Binary
import LazyQuery.Decimal.Double
import LazyQuery.Decimal.Word

/-!
# Reading decimals

Decimal numerals and their values.

* `digitsValue` is the number a run of digits stands for.
* `scan?` reads an unsigned numeral off the front of a text: digits with an optional fraction and an
  optional exponent, at least one digit before the exponent.
* `toFloat` is the float nearest to a decimal.
* `integer?` and `float?` read a whole text as a 64-bit integer or as a float.
-/

set_option autoImplicit false

namespace LazyQuery.Decimal

/-- The number that a run of decimal digits stands for. -/
def digitsValue (ds : List Char) : Nat :=
  ds.foldl (fun n c => 10 * n + (c.toNat - '0'.toNat)) 0

/-- The float nearest to `± significand * 10 ^ exponent`, ties going to the even neighbour. A
decimal far outside the range of floats is settled by its magnitude alone. -/
def toFloat (negative : Bool) (significand : Nat) (exponent : Int) : Float :=
  let size : Int := (Nat.toDigits 10 significand).length + exponent
  let magnitude : Float :=
    if significand = 0 ∨ size < -400 then 0.0
    else if 400 < size then Binary.infinity
    else Float.ofScientific significand (exponent < 0) exponent.natAbs
  if negative then -magnitude else magnitude

/-- An unsigned numeral and what follows it. -/
structure Numeral where
  significand : Nat
  exponent : Int
  /-- Is it written with digits alone? -/
  isInteger : Bool
  rest : List Char

/-- A sign and what follows it; without one the text is unchanged. -/
def sign : List Char → Bool × List Char
  | '-' :: rest => (true, rest)
  | '+' :: rest => (false, rest)
  | rest => (false, rest)

/-- The exponent of a numeral and what follows it; without a complete exponent the text is
unchanged. -/
def scanExponent (cs : List Char) : Int × Bool × List Char :=
  match cs with
  | c :: rest =>
    if c = 'e' ∨ c = 'E' then
      let (negative, rest) := sign rest
      match rest.takeWhile Char.isDigit with
      | [] => (0, false, cs)
      | ds =>
        let e : Int := digitsValue ds
        (if negative then -e else e, true, rest.dropWhile Char.isDigit)
    else (0, false, cs)
  | [] => (0, false, cs)

/-- The fraction digits of a numeral, whether there is a point, and what follows. -/
def scanFraction : List Char → List Char × Bool × List Char
  | '.' :: rest => (rest.takeWhile Char.isDigit, true, rest.dropWhile Char.isDigit)
  | rest => ([], false, rest)

/-- The unsigned numeral at the front of a text. -/
def scan? (cs : List Char) : Option Numeral :=
  let whole := cs.takeWhile Char.isDigit
  let (fraction, pointed, rest) := scanFraction (cs.dropWhile Char.isDigit)
  if whole.isEmpty && fraction.isEmpty then none
  else
    let (e, exponential, rest) := scanExponent rest
    some ⟨digitsValue (whole ++ fraction), e - fraction.length, !pointed && !exponential, rest⟩

/-- A text that is wholly a 64-bit integer: an optional sign and digits. -/
def integer? (s : String) : Option Int64 :=
  let (negative, ds) := sign s.toList
  if ds.isEmpty || !ds.all Char.isDigit then none
  else Word.fit? (if negative then -(digitsValue ds : Int) else digitsValue ds)

/-- The words for floats that are not finite, in lower case. -/
def special? (cs : List Char) : Option Double :=
  let word := String.ofList (cs.map Char.toLower)
  if word = "inf" ∨ word = "infinity" then some (.ofFloat Binary.infinity)
  else if word = "nan" then some .nan
  else none

/-- A text that is wholly a float: an optional sign and a numeral or a special word. -/
def float? (s : String) : Option Double :=
  let (negative, cs) := sign s.toList
  match scan? cs with
  | some n =>
    if n.rest.isEmpty then some (.ofFloat (toFloat negative n.significand n.exponent)) else none
  | none => (special? cs).map fun x => if negative then -x else x

end LazyQuery.Decimal
