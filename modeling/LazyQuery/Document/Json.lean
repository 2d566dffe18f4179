import LazyQuery.Scalar.Text
import LazyQuery.Decimal.Read

/-!
# JSON documents

JSON is read in two steps. `parse?` checks the grammar and yields a `Document`, in which numbers and
strings are still as they are written; `Document.value?` gives them their meaning, which can fail.
What is never looked at need only be well formed.

* A number without fraction and exponent is an integer if it fits in 64 bits, with or without a
  sign. Any other number is a float, found from its leading digits by multiplying or dividing with
  powers of ten. A number too large for a float has no meaning.
* A string that escapes half of a surrogate pair has no meaning.

`Value.render` is the text of a value without blanks.
-/

set_option autoImplicit false

namespace LazyQuery.Json

open scoped Numbers

/-! ## Grammar -/

/-- A number as it is written. -/
structure NumberText where
  negative : Bool
  whole : List Char
  fraction : Option (List Char)
  /-- The sign of an exponent, `true` being negative, and its digits. -/
  exponent : Option (Bool × List Char)
  deriving DecidableEq

/-- A document, with numbers and strings as they are written. -/
inductive Document
  | null
  | bool (b : Bool)
  | number (n : NumberText)
  | string (raw : List Char)
  | array (items : List Document)
  | object (members : List (List Char × Document))

/-- A text without the blanks at its front. -/
def skipBlanks (cs : List Char) : List Char :=
  cs.dropWhile fun c => c = ' ' || c = '\n' || c = '\t' || c = '\r'

/-- Is the character a hexadecimal digit? -/
def isHexDigit (c : Char) : Bool :=
  c.isDigit || ('a' ≤ c && c ≤ 'f') || ('A' ≤ c && c ≤ 'F')

/-- The content of a string and what follows its closing quote. Controls must be escaped. -/
def scanString : List Char → Option (List Char × List Char)
  | [] => none
  | '"' :: rest => some ([], rest)
  | '\\' :: 'u' :: a :: b :: c :: d :: rest =>
    if isHexDigit a && isHexDigit b && isHexDigit c && isHexDigit d then
      (scanString rest).map fun (s, rest) => ('\\' :: 'u' :: a :: b :: c :: d :: s, rest)
    else none
  | '\\' :: c :: rest =>
    if "\"\\/bfnrt".toList.contains c then
      (scanString rest).map fun (s, rest) => ('\\' :: c :: s, rest)
    else none
  | c :: rest =>
    if c.toNat < 0x20 || c = '\\' then none
    else (scanString rest).map fun (s, rest) => (c :: s, rest)

/-- A fraction, if there is one; after the point there must be a digit. -/
def scanFraction (cs : List Char) : Option (Option (List Char) × List Char) :=
  match cs with
  | '.' :: rest =>
    let ds := rest.takeWhile Char.isDigit
    if ds.isEmpty then none else some (some ds, rest.dropWhile Char.isDigit)
  | rest => some (none, rest)

/-- An exponent, if there is one; after its sign there must be a digit. -/
def scanExponent (cs : List Char) : Option (Option (Bool × List Char) × List Char) :=
  match cs with
  | c :: rest =>
    if c = 'e' ∨ c = 'E' then
      let (negative, rest) := Decimal.sign rest
      let ds := rest.takeWhile Char.isDigit
      if ds.isEmpty then none else some (some (negative, ds), rest.dropWhile Char.isDigit)
    else some (none, cs)
  | [] => some (none, cs)

/-- A number and what follows it. A zero is not followed by a digit. -/
def scanNumber (cs : List Char) : Option (NumberText × List Char) := do
  let (negative, cs) :=
    match cs with
    | '-' :: rest => (true, rest)
    | rest => (false, rest)
  let whole := cs.takeWhile Char.isDigit
  if whole.isEmpty || (whole.length > 1 && whole.headD '0' = '0') then none
  let (fraction, cs) ← scanFraction (cs.dropWhile Char.isDigit)
  let (exponent, cs) ← scanExponent cs
  pure (⟨negative, whole, fraction, exponent⟩, cs)

/-- What follows a word, if the text begins with it. -/
def expect (word : String) (cs : List Char) : Option (List Char) :=
  if word.toList.isPrefixOf cs then some (cs.drop word.length) else none

mutual

/-- A document and what follows it. The fuel bounds the steps, `depth` the nesting. -/
def parseValue : Nat → Nat → List Char → Option (Document × List Char)
  | 0, _, _ => none
  | fuel + 1, depth, cs =>
    match skipBlanks cs with
    | [] => none
    | '"' :: rest => (scanString rest).map fun (s, rest) => (.string s, rest)
    | '[' :: rest =>
      if depth = 0 then none
      else
        match skipBlanks rest with
        | ']' :: rest => some (.array [], rest)
        | rest => (parseItems fuel (depth - 1) rest).map fun (items, rest) => (.array items, rest)
    | '\x7b' :: rest =>
      if depth = 0 then none
      else
        match skipBlanks rest with
        | '\x7d' :: rest => some (.object [], rest)
        | rest => (parseMembers fuel (depth - 1) rest).map fun (ms, rest) => (.object ms, rest)
    | 't' :: rest => (expect "rue" rest).map fun rest => (.bool true, rest)
    | 'f' :: rest => (expect "alse" rest).map fun rest => (.bool false, rest)
    | 'n' :: rest => (expect "ull" rest).map fun rest => (.null, rest)
    | rest => (scanNumber rest).map fun (n, rest) => (.number n, rest)

/-- The items of an array up to its end. -/
def parseItems : Nat → Nat → List Char → Option (List Document × List Char)
  | 0, _, _ => none
  | fuel + 1, depth, cs => do
    let (item, rest) ← parseValue fuel depth cs
    match skipBlanks rest with
    | ',' :: rest =>
      let (items, rest) ← parseItems fuel depth rest
      pure (item :: items, rest)
    | ']' :: rest => pure ([item], rest)
    | _ => none

/-- The members of an object up to its end. -/
def parseMembers : Nat → Nat → List Char → Option (List (List Char × Document) × List Char)
  | 0, _, _ => none
  | fuel + 1, depth, cs =>
    match skipBlanks cs with
    | '"' :: rest => do
      let (key, rest) ← scanString rest
      match skipBlanks rest with
      | ':' :: rest =>
        let (item, rest) ← parseValue fuel depth rest
        match skipBlanks rest with
        | ',' :: rest =>
          let (members, rest) ← parseMembers fuel depth rest
          pure ((key, item) :: members, rest)
        | '\x7d' :: rest => pure ([(key, item)], rest)
        | _ => none
      | _ => none
    | _ => none

end

/-- The document that a text is, nested at most `depth` deep. -/
def parse? (depth : Nat) (text : String) : Option Document :=
  let cs := text.toList
  match parseValue (2 * cs.length + 2) depth cs with
  | some (d, rest) => if (skipBlanks rest).isEmpty then some d else none
  | none => none

/-! ## Meaning -/

/-- A number: an integer of 64 bits, with or without a sign, or a float. -/
inductive Number
  | int (i : Int)
  | float (x : Float)
  deriving DecidableEq

/-- The largest word. -/
def maxWord : Nat := 2 ^ 64 - 1

/-- The number of a digit. -/
def digitValue (c : Char) : Nat := c.toNat - '0'.toNat

/-- Take digits into a significand as long as it stays a word, and count those left over. -/
def takeDigits : Nat → List Char → Nat × Nat
  | s, [] => (s, 0)
  | s, c :: cs =>
    let next := 10 * s + digitValue c
    if next ≤ maxWord then takeDigits next cs else (s, cs.length + 1)

/-- A power of ten up to the 308th, as a float. -/
def powerOfTen (n : Nat) : Float := Float.ofScientific 1 false n

/-- A float scaled by a power of ten, in steps of at most 308; nothing if it becomes infinite. -/
def scale : Nat → Float → Int → Option Float
  | 0, x, _ => some x
  | fuel + 1, x, e =>
    if e.natAbs ≤ 308 then
      if 0 ≤ e then
        let y := x * powerOfTen e.toNat
        if y.isInf then none else some y
      else some (x / powerOfTen e.natAbs)
    else if x == 0.0 then some x
    else if 0 ≤ e then none
    else scale fuel (x / powerOfTen 308) (e + 308)

/-- The largest exponent that is counted. -/
def maxExponent : Nat := 2 ^ 31 - 1

/-- The float of a significand and the two parts of its exponent: from its digits and as written. -/
def floatOfParts (negative : Bool) (significand : Nat) (shift : Int)
    (exponent : Option (Bool × List Char)) : Option Float :=
  let signed (x : Float) : Float := if negative then -x else x
  let scaled (e : Int) : Option Float :=
    (scale 4 (UInt64.ofNat significand).toFloat e).map signed
  match exponent with
  | none => scaled shift
  | some (below, ds) =>
    let e := Decimal.digitsValue ds
    if e ≤ maxExponent then scaled (if below then shift - e else shift + e)
    else if significand ≠ 0 ∧ !below then none
    else some (signed 0.0)

/-- The number that is written. -/
def NumberText.number? (n : NumberText) : Option Number :=
  let (s, extra) := takeDigits 0 n.whole
  match n.fraction, n.exponent with
  | none, none =>
    if extra > 0 then (floatOfParts n.negative s extra none).map .float
    else if !n.negative then some (.int s)
    else if 1 ≤ s ∧ s ≤ 2 ^ 63 then some (.int (-s))
    else some (.float (-(UInt64.ofNat s).toFloat))
  | fraction, exponent =>
    let ds := fraction.getD []
    let (s, left) := takeDigits s ds
    let shift : Int := extra - (ds.length - left : Nat)
    (floatOfParts n.negative s shift exponent).map .float

/-- The number of a hexadecimal digit. -/
def hexValue (c : Char) : Nat :=
  if c.isDigit then c.toNat - '0'.toNat
  else if 'a' ≤ c then c.toNat - 'a'.toNat + 10
  else c.toNat - 'A'.toNat + 10

/-- The number of four hexadecimal digits. -/
def hexUnit (a b c d : Char) : Nat :=
  ((hexValue a * 16 + hexValue b) * 16 + hexValue c) * 16 + hexValue d

/-- The character of an escape of one letter. -/
def simpleEscape : Char → Char
  | 'b' => '\x08'
  | 'f' => '\x0c'
  | 'n' => '\n'
  | 'r' => '\r'
  | 't' => '\t'
  | c => c

/-- The characters that the content of a string stands for. -/
def decodeChars : List Char → Option (List Char)
  | [] => some []
  | '\\' :: 'u' :: a :: b :: c :: d :: rest =>
    let unit := hexUnit a b c d
    if 0xDC00 ≤ unit ∧ unit ≤ 0xDFFF then none
    else if 0xD800 ≤ unit ∧ unit ≤ 0xDBFF then
      match rest with
      | '\\' :: 'u' :: e :: f :: g :: h :: rest =>
        let low := hexUnit e f g h
        if 0xDC00 ≤ low ∧ low ≤ 0xDFFF then
          (decodeChars rest).map
            (Char.ofNat (0x10000 + (unit - 0xD800) * 0x400 + (low - 0xDC00)) :: ·)
        else none
      | _ => none
    else (decodeChars rest).map (Char.ofNat unit :: ·)
  | '\\' :: c :: rest => (decodeChars rest).map (simpleEscape c :: ·)
  | c :: rest => (decodeChars rest).map (c :: ·)

/-- The text that the content of a string stands for. -/
def decodeString? (raw : List Char) : Option String :=
  (decodeChars raw).map String.ofList

/-- A JSON value. The members of an object have distinct keys. -/
inductive Value
  | null
  | bool (b : Bool)
  | number (n : Number)
  | string (s : String)
  | array (items : List Value)
  | object (members : List (String × Value))
  deriving Inhabited

/-- Members with one more: a later value takes the place of an earlier one of the same key. -/
def putMember (members : List (String × Value)) (key : String) (v : Value) :
    List (String × Value) :=
  if members.any (·.1 == key) then members.map fun m => if m.1 == key then (key, v) else m
  else members ++ [(key, v)]

mutual

/-- The value of a document. -/
def Document.value? : Document → Option Value
  | .null => some .null
  | .bool b => some (.bool b)
  | .number n => n.number?.map .number
  | .string raw => (decodeString? raw).map .string
  | .array items => (itemValues? items).map .array
  | .object members => (memberValues? [] members).map .object

/-- The values of items. -/
def itemValues? : List Document → Option (List Value)
  | [] => some []
  | d :: rest => do
    let v ← d.value?
    pure (v :: (← itemValues? rest))

/-- The values of members, added to those already found. -/
def memberValues? : List (String × Value) → List (List Char × Document) →
    Option (List (String × Value))
  | found, [] => some found
  | found, (raw, d) :: rest => do
    let key ← decodeString? raw
    let v ← d.value?
    memberValues? (putMember found key v) rest

end

/-! ## Text -/

/-- Floats in a document have their shortest digits, positional from `0.00001` to below `1e+16`. -/
def floatLayout : Decimal.Layout where
  digits := Decimal.shortest .even
  leastPoint := -4
  mostPoint := 16
  wholeMantissaPoint := false
  exponentPlus := true
  exponentWidth := 1
  signedZero := true
  undefinedText := "null"
  infinityText := "null"

/-- The text of a number. -/
def Number.render : Number → String
  | int i => toString i
  | float x => floatLayout.write x

/-- A character inside a string. -/
def escapedChar (c : Char) : String :=
  match c with
  | '"' => "\\\""
  | '\\' => "\\\\"
  | '\x08' => "\\b"
  | '\x0c' => "\\f"
  | '\n' => "\\n"
  | '\r' => "\\r"
  | '\t' => "\\t"
  | _ =>
    if c.toNat < 0x20 then
      "\\u00" ++ String.ofList ((Nat.toDigits 16 (256 + c.toNat)).drop 1)
    else c.toString

/-- The text of a string. -/
def renderString (s : String) : String :=
  "\"" ++ String.join (s.toList.map escapedChar) ++ "\""

mutual

/-- The text of a value, without blanks. -/
def Value.render : Value → String
  | .null => "null"
  | .bool b => Scalar.boolText b
  | .number n => n.render
  | .string s => renderString s
  | .array items => "[" ++ ",".intercalate (renderItems items) ++ "]"
  | .object members => "\x7b" ++ ",".intercalate (renderMembers members) ++ "\x7d"

/-- The texts of items. -/
def renderItems : List Value → List String
  | [] => []
  | v :: rest => v.render :: renderItems rest

/-- The texts of members. -/
def renderMembers : List (String × Value) → List String
  | [] => []
  | (k, v) :: rest => (renderString k ++ ":" ++ v.render) :: renderMembers rest

end

end LazyQuery.Json
