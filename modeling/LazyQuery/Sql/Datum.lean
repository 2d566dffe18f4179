import LazyQuery.Scalar.Order
import LazyQuery.Decimal.Read
import LazyQuery.Sql.Real
import LazyQuery.Sql.Token

/-!
# Stored values

What the relational store keeps of a cell, and how it converts and compares what it keeps. There are
no truth values and no undefined floats among stored values.

* An `Affinity` is a column's preference for a kind of value. `Affinity.keep` is the value that a
  column keeps of one inserted into it.
* `Datum.compare` orders stored values, integers and floats by their exact values.
* `comparable` prepares two values for a comparison by the affinities of their expressions.
-/

set_option autoImplicit false

namespace LazyQuery.Sql

/-- A stored value. -/
inductive Datum
  | null
  | integer (i : Int64)
  | real (x : Float)
  | text (s : String)
  | blob (bytes : List UInt8)
  deriving DecidableEq, Inhabited

namespace Datum

/-- A float as a stored value; an undefined one is null. -/
def ofFloat (x : Float) : Datum := if x.isNaN then null else real x

/-- A value that a function returns as the store takes it over: an undefined float is null. -/
def returned : Datum → Datum
  | real x => ofFloat x
  | v => v

/-- A truth value as a stored value. -/
def ofBool (b : Bool) : Datum := integer (Scalar.bit b)

/-- A truth value that can be missing as a stored value. -/
def ofTruth : Option Bool → Datum
  | some b => ofBool b
  | none => null

/-- What is stored of a cell. -/
def ofScalar : Scalar → Datum
  | .null => null
  | .bool b => ofBool b
  | .int i => integer i
  | .float x => ofFloat x.value
  | .text s => text s
  | .blob bytes => blob bytes

/-- A stored value as a cell. -/
def toScalar : Datum → Scalar
  | null => .null
  | integer i => .int i
  | real x => .float (.ofFloat x)
  | text s => .text s
  | blob bytes => .blob bytes

/-- Is the value missing? -/
def isNull : Datum → Bool
  | null => true
  | _ => false

/-! ## Text -/

/-- The character of a number that bytes add up to. A number that could be written with one byte and
one kept for other ends give the replacement character, one beyond all characters the last of them.
-/
def looseChar (n : UInt32) : Char :=
  if n < 0x80 ∨ (0xD800 ≤ n ∧ n < 0xE000) ∨ n = 0xFFFE ∨ n = 0xFFFF then '\uFFFD'
  else Char.ofNat (min n.toNat 0x10FFFF)

/-- The bits of the first byte of a character that belong to its number. -/
def leadBits (b : UInt8) : UInt32 :=
  if b < 0xE0 then (b &&& 0x1F).toUInt32
  else if b < 0xF0 then (b &&& 0x0F).toUInt32
  else if b < 0xF8 then (b &&& 0x07).toUInt32
  else if b < 0xFC then (b &&& 0x03).toUInt32
  else if b < 0xFE then (b &&& 0x01).toUInt32
  else 0

/-- The characters that bytes are taken for, after one that is begun already. A first byte takes all
continuing bytes after it, however many; one that follows no first byte stands for itself. -/
def looseChars : Option UInt32 → List UInt8 → List Char
  | begun, [] => begun.toList.map looseChar
  | some n, b :: rest =>
    if 0x80 ≤ b ∧ b < 0xC0 then looseChars (some ((n <<< 6) + (b &&& 0x3F).toUInt32)) rest
    else if 0xC0 ≤ b then looseChar n :: looseChars (some (leadBits b)) rest
    else looseChar n :: Char.ofUInt8 b :: looseChars none rest
  | none, b :: rest =>
    if 0xC0 ≤ b then looseChars (some (leadBits b)) rest
    else Char.ofUInt8 b :: looseChars none rest

/-- A value as text. Of bytes it is what they are taken for. -/
def toText : Datum → String
  | null => ""
  | integer i => Scalar.intText i
  | real x => realLayout.write x
  | text s => s
  | blob bytes => String.ofList (looseChars none bytes)

/-! ## Numbers -/

/-- Blanks that can surround a number. -/
def isBlank (c : Char) : Bool :=
  c = ' ' || c = '\t' || c = '\n' || c = '\r' || c = '\x0b' || c = '\x0c'

/-- The number at the front of a text, and what follows it. -/
def leadingNumber? (s : String) : Option (Datum × List Char) :=
  let (negative, cs) := Decimal.sign (s.toList.dropWhile isBlank)
  (Decimal.scan? cs).map fun n =>
    let signed : Int := if negative then -(n.significand : Int) else n.significand
    let inexact := ofFloat (readReal negative n.significand n.exponent)
    match n.isInteger, Word.fit? signed with
    | true, some i => (integer i, n.rest)
    | _, _ => (inexact, n.rest)

/-- A text that is wholly a number, blanks around it aside. -/
def wholeNumber? (s : String) : Option Datum :=
  match leadingNumber? s with
  | some (n, rest) => if rest.all isBlank then some n else none
  | none => none

/-- The value of a literal in a statement. A float is what its text reads as. -/
def ofLiteral : Scalar → Datum
  | .float x => (leadingNumber? (literal (.float x))).elim null (·.1)
  | v => ofScalar v

/-- Bytes as characters, one by one. -/
def byteText (bytes : List UInt8) : String := String.ofList (bytes.map Char.ofUInt8)

/-- A value as a number, of which a text gives what is at its front. -/
def toNumber : Datum → Datum
  | text s => (leadingNumber? s).elim (integer 0) (·.1)
  | blob bytes => (leadingNumber? (byteText bytes)).elim (integer 0) (·.1)
  | v => v

/-- A number as a float. -/
def toFloat (v : Datum) : Float :=
  match v.toNumber with
  | integer i => floatOfInt i
  | real x => x
  | _ => 0.0

/-- The integer at the front of a text, held to the range of 64-bit integers. -/
def leadingInt (s : String) : Int64 :=
  let (negative, cs) := Decimal.sign (s.toList.dropWhile isBlank)
  let n : Int := Decimal.digitsValue (cs.takeWhile Char.isDigit)
  Int64.ofIntClamp (if negative then -n else n)

/-- A number as an integer, without its fraction; of a text, the digits at its front. -/
def toInt : Datum → Int64
  | null => 0
  | integer i => i
  | real x => Binary.toInt64 x
  | text s => leadingInt s
  | blob bytes => leadingInt (byteText bytes)

/-- A value as a sum takes it: an integer or a text that is wholly one is exact, anything else
counts as a float. -/
def toSummand : Datum → Datum
  | text s => (wholeNumber? s).getD (real (text s).toFloat)
  | blob bytes => real (blob bytes).toFloat
  | v => v

/-- The truth of a value in a condition: a number other than zero. -/
def truth? (v : Datum) : Option Bool :=
  match v.toNumber with
  | integer i => some (i != 0)
  | real x => some (x != 0.0)
  | _ => none

/-! ## Order -/

/-- The place of a value's kind among the kinds. -/
def kindRank : Datum → Nat
  | null => 0
  | integer _ | real _ => 1
  | text _ => 2
  | blob _ => 3

/-- The order of stored values: null, numbers by value, texts, blobs. -/
def compare (a b : Datum) : Ordering :=
  match a, b with
  | integer x, integer y => Ord.compare x.toInt y.toInt
  | integer x, real y => Binary.compareInt x.toInt y
  | real x, integer y => (Binary.compareInt y.toInt x).swap
  | real x, real y => Binary.compareFloat x y
  | text x, text y => Scalar.compareChars x.toList y.toList
  | blob x, blob y => Scalar.compareBytes x y
  | a, b => Ord.compare a.kindRank b.kindRank

/-- Are two tuples equal, null being equal to null? -/
def sameTuple : List Datum → List Datum → Bool
  | [], [] => true
  | a :: as, b :: bs => a.compare b == .eq && sameTuple as bs
  | _, _ => false

end Datum

/-! ## Affinities -/

/-- A column's preference for a kind of value. A computed column has none; a column declared without
a type prefers nothing, as one of blobs does. -/
inductive Affinity
  | none
  | blob
  | text
  | integer
  | real
  deriving DecidableEq, Inhabited

/-- The affinity of a column declared for a type. -/
def declaredAffinity : DataType → Affinity
  | .boolean | .int64 => .integer
  | .float64 => .real
  | .utf8 => .text
  | .binary | .null => .blob

namespace Affinity

/-- Does the affinity prefer numbers? -/
def isNumeric : Affinity → Bool
  | integer | real => true
  | none | blob | text => false

/-- A text that is wholly a number as that number, and other values as they are. -/
def numeric : Datum → Datum
  | .text s => (Datum.wholeNumber? s).getD (.text s)
  | v => v

/-- A number as text, and other values as they are. -/
def textual : Datum → Datum
  | .integer i => .text (Datum.integer i).toText
  | .real x => .text (Datum.real x).toText
  | v => v

/-- An integral float strictly between the least and the greatest integer as an integer, and other
values as they are. -/
def integral : Datum → Datum
  | .real x =>
    let i := Binary.toInt64 x
    if Binary.isIntegral x && Int64.minValue < i && i < Int64.maxValue then .integer i else .real x
  | v => v

/-- An integer as a float, and other values as they are. -/
def floating : Datum → Datum
  | .integer i => .real (floatOfInt i)
  | v => v

/-- What a column keeps of a value. A column of floats keeps integral ones as integers and reads
them as floats, so that it loses the sign of zero. -/
def keep : Affinity → Datum → Datum
  | none, v | blob, v => v
  | text, v => textual v
  | integer, v => integral (numeric v)
  | real, v => floating (integral (numeric v))

/-- The affinity of a column of a compound, from those of its parts. The first part that has one
decides, unless a part after it, or a computed one before it, can hold what it would convert. -/
def ofParts (parts : List Affinity) : Affinity :=
  let computed := parts.takeWhile (· == none)
  match parts.dropWhile (· == none) with
  | [] => none
  | chosen :: rest =>
    let others := computed ++ rest
    match chosen with
    | text => if others.any (· != text) then blob else text
    | integer => if others.any fun a => !a.isNumeric then blob else integer
    | real => if others.any fun a => !a.isNumeric then blob else real
    | a => a

end Affinity

/-- Two values as they are compared. If both have a column's affinity and one is numeric, texts
become numbers where they are wholly numbers. If only one has, its affinity applies to both. -/
def comparable (a : Affinity) (x : Datum) (b : Affinity) (y : Datum) : Datum × Datum :=
  let shared : Affinity :=
    if a ≠ .none ∧ b ≠ .none then
      if a.isNumeric then a else if b.isNumeric then b else .blob
    else if a = .none then b
    else a
  let bothTextual : Datum × Datum :=
    match x, y with
    | .text _, _ | _, .text _ => (Affinity.textual x, Affinity.textual y)
    | _, _ => (x, y)
  match shared with
  | .integer | .real => (Affinity.numeric x, Affinity.numeric y)
  | .text => bothTextual
  | .none | .blob => (x, y)

end LazyQuery.Sql
