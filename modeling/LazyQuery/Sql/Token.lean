import LazyQuery.Scalar.Text

/-!
# Names and literals in statements

A name stands between double quotes and a text between single quotes, the quote itself being written
twice. Truth values are the integers 0 and 1, an undefined float is `NULL`, and an infinite one is a
literal too large for a float.
-/

set_option autoImplicit false

namespace LazyQuery.Sql

/-- A text with each occurrence of a character doubled. -/
def doubled (q : Char) (s : String) : String :=
  String.ofList (s.toList.flatMap fun c => if c = q then [q, q] else [c])

/-- A name between double quotes. -/
def ident (name : String) : String := "\"" ++ doubled '"' name ++ "\""

/-- A column with its table. -/
def qualified (table column : String) : String := ident table ++ "." ++ ident column

/-- A byte as two upper-case hexadecimal digits. -/
def hexByte (b : UInt8) : String :=
  String.ofList ((Nat.toDigits 16 (256 + b.toNat)).drop 1 |>.map Char.toUpper)

/-- The literal of a value. -/
def literal : Scalar → String
  | .null => "NULL"
  | .bool b => if b then "1" else "0"
  | .int i => Scalar.intText i
  | .float x =>
    if x.isNaN then "NULL"
    else if Binary.isFinite x.value then Scalar.floatLayout.write x.value
    else if Binary.isNegative x.value then "-9e999"
    else "9e999"
  | .text s => "'" ++ doubled '\'' s ++ "'"
  | .blob bytes => "X'" ++ String.join (bytes.map hexByte) ++ "'"

/-- The declared type of a column; a column of unknown type has none. -/
def columnType : DataType → String
  | .boolean | .int64 => "INTEGER"
  | .float64 => "REAL"
  | .utf8 => "TEXT"
  | .binary => "BLOB"
  | .null => ""

end LazyQuery.Sql
