import LazyQuery.Document.Json
import LazyQuery.Table.Basic

/-!
# Tables from JSON records

Reading a table from an array of objects. There is a column for each key, in the order in which the
keys first appear, and a row for each object; a key that an object lacks is null there.

Numbers in a column widen to what they agree on. In a column that mixes text with anything else
every value is kept as its text, and an array or object always is.
-/

set_option autoImplicit false

namespace LazyQuery.Records

/-- How deep arrays and objects can be nested. -/
def maxDepth : Nat := 127

/-- The cell of a number. -/
def numberCell : Json.Number → Scalar
  | .int i =>
    match Word.fit? i with
    | some w => .int w
    | none => .float (.ofFloat (Float.ofInt i))
  | .float x => .float (.ofFloat x)

/-- The cell of a value. -/
def cell : Json.Value → Scalar
  | .null => .null
  | .bool b => .bool b
  | .number n => numberCell n
  | .string s => .text s
  | v => .text v.render

/-- The members of the records. -/
def members : List Json.Value → Except StoreError (List (List (String × Json.Value)))
  | [] => pure []
  | .object ms :: rest => do pure (ms :: (← members rest))
  | _ :: _ => throw (.format .notAnObject)

/-- A text cell, or null. -/
def asText : Scalar → Scalar
  | .null => .null
  | v => .text v.display

/-- The values of a column, brought to what they agree on. -/
def columnValues (values : List Scalar) : List Scalar :=
  match inferType values with
  | .int64 => values.map (Scalar.coerce .int64)
  | .float64 => values.map (Scalar.coerce .float64)
  | .utf8 => values.map asText
  | _ => values

/-- The table of a text. -/
def readText (text : String) : Except StoreError Table :=
  match (Json.parse? maxDepth text).bind Json.Document.value? with
  | none => throw .json
  | some (.array items) => do
    let records ← members items
    let names := (records.flatMap fun r => r.map (·.1)).eraseDups
    let columns := names.map fun name =>
      Column.mk name (columnValues (records.map fun r =>
        match r.find? (·.1 == name) with
        | some (_, v) => cell v
        | none => .null))
    (Table.ofColumns columns).mapError fun e => .plan (.construction e)
  | some _ => throw (.format .notAnArray)

/-- The table of a text in UTF-8. -/
def read (bytes : ByteArray) : Except StoreError Table :=
  match String.fromUTF8? bytes with
  | some text => readText text
  | none => throw .json

end LazyQuery.Records
