import LazyQuery.Decimal.Read
import LazyQuery.Table.Basic

/-!
# Comma-separated text

Reading a table from records of comma-separated fields, the first of which holds the column names.

* A field can stand between double quotes, inside which a quote is written twice. Outside, and after
  a closing quote, quotes are ordinary characters.
* A record ends at a line feed or carriage return outside quotes. Empty lines are passed over.
* All records are as wide as the first.

Each field is typed by its text alone (`fieldValue`), and then each column takes the type its values
agree on (`columnValues`).
-/

set_option autoImplicit false

namespace LazyQuery.Csv

/-! ## Records -/

/-- The place of a reader in a record. -/
inductive State
  | startOfRecord
  | startOfField
  | inField
  | inQuotes
  | afterQuote
  deriving DecidableEq

/-- What has been read: complete records, the fields of the present record, and the characters of
the present field, all backwards. -/
structure Progress where
  records : List (List String)
  fields : List String
  chars : List Char

namespace Progress

/-- One more character in the field. -/
def push (p : Progress) (c : Char) : Progress := { p with chars := c :: p.chars }

/-- The field is complete. -/
def endField (p : Progress) : Progress :=
  { p with fields := String.ofList p.chars.reverse :: p.fields, chars := [] }

/-- The field and the record are complete. -/
def endRecord (p : Progress) : Progress :=
  let p := p.endField
  { records := p.fields.reverse :: p.records, fields := [], chars := [] }

end Progress

/-- Does a character end a record? -/
def isTerminator (c : Char) : Bool := c = '\n' || c = '\r'

/-- What an unquoted character does inside a record. -/
def plain (p : Progress) (c : Char) : State × Progress :=
  if c = ',' then (.startOfField, p.endField)
  else if isTerminator c then (.startOfRecord, p.endRecord)
  else (.inField, p.push c)

/-- Read one character. -/
def step : State × Progress → Char → State × Progress
  | (.startOfRecord, p), c =>
    if isTerminator c then (.startOfRecord, p)
    else if c = '"' then (.inQuotes, p)
    else plain p c
  | (.startOfField, p), c => if c = '"' then (.inQuotes, p) else plain p c
  | (.inField, p), c => plain p c
  | (.inQuotes, p), c => if c = '"' then (.afterQuote, p) else (.inQuotes, p.push c)
  | (.afterQuote, p), c => if c = '"' then (.inQuotes, p.push c) else plain p c

/-- The records of a text. The end of the text ends a record that has begun, even inside quotes. -/
def records (cs : List Char) : List (List String) :=
  let (state, p) := cs.foldl step (.startOfRecord, ⟨[], [], []⟩)
  let p := if state = .startOfRecord then p else p.endRecord
  p.records.reverse

/-- A text without the mark that can precede it. -/
def withoutMark : List Char → List Char
  | '\uFEFF' :: rest => rest
  | cs => cs

/-! ## Columns -/

/-- The value of a field: nothing, an integer, a float, a truth value, or else its text. -/
def fieldValue (raw : String) : Scalar :=
  if raw.isEmpty then .null
  else
    match Decimal.integer? raw with
    | some i => .int i
    | none =>
      match Decimal.float? raw with
      | some x => .float x
      | none =>
        if raw = "true" ∨ raw = "True" ∨ raw = "TRUE" then .bool true
        else if raw = "false" ∨ raw = "False" ∨ raw = "FALSE" then .bool false
        else .text raw

/-- The values of a column. Numbers widen to what they agree on, and in a column of text every field
that is not empty keeps its text. -/
def columnValues (raw : List String) : List Scalar :=
  let values := raw.map fieldValue
  match inferType values with
  | .utf8 => raw.map fun r => if r.isEmpty then .null else .text r
  | .int64 => values.map (Scalar.coerce .int64)
  | .float64 => values.map (Scalar.coerce .float64)
  | _ => values

/-- The table of a text. -/
def readText (text : String) : Except StoreError Table :=
  match records (withoutMark text.toList) with
  | [] => pure ⟨[]⟩
  | header :: rest =>
    if rest.any fun r => r.length != header.length then throw .csv
    else
      let columns := header.zipIdx.map fun (name, i) =>
        Column.mk name (columnValues (rest.map fun r => r.getD i ""))
      (Table.ofColumns columns).mapError fun e => .plan (.construction e)

/-- The table of a text in UTF-8. -/
def read (bytes : ByteArray) : Except StoreError Table :=
  match String.fromUTF8? bytes with
  | some text => readText text
  | none => throw .csv

end LazyQuery.Csv
