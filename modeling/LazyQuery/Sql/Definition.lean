import LazyQuery.Schema.Basic
import LazyQuery.Sql.Datum
import LazyQuery.Sql.Keyword

/-!
# Statements on whole tables

The texts that drop, create, fill, read and count a table, and the text by which the store remembers
a table that was created from a result.
-/

set_option autoImplicit false

namespace LazyQuery.Sql

/-- Drop a table, if there is one. -/
def dropTableText (name : String) : String := "DROP TABLE IF EXISTS " ++ ident name

/-- Create a table from the result of a query. -/
def createTableAsText (name query : String) : String :=
  "CREATE TABLE " ++ ident name ++ " AS " ++ query

/-- A column with its declared type, if it has one. -/
def columnDefinition (f : Field) : String :=
  match columnType f.type with
  | "" => ident f.name
  | type => ident f.name ++ " " ++ type

/-- Create an empty table with declared types. -/
def createTableText (name : String) (s : Schema) : String :=
  "CREATE TABLE " ++ ident name
    ++ " (" ++ Text.commaSeparated (s.fields.map columnDefinition) ++ ")"

/-- Insert one row of bound values. -/
def insertRowText (name : String) (columns : Nat) : String :=
  "INSERT INTO " ++ ident name ++ " VALUES ("
    ++ Text.commaSeparated (List.replicate columns "?") ++ ")"

/-- Count the rows of a table. -/
def countRowsText (name : String) : String := "SELECT COUNT(*) FROM " ++ ident name

/-! ## Remembered definitions -/

/-- The type that a column of a result is remembered with. -/
def Affinity.typeText : Affinity → String
  | none | blob => ""
  | text => " TEXT"
  | integer => " INT"
  | real => " REAL"

/-- The most bytes of a definition on one line, five being counted for each type. -/
def lineWidth : Nat := 50

/-- The definition of a table with the columns of a result, on one line if it is short. -/
def resultDefinition (name : String) (columns : List (String × Affinity)) : String :=
  let width := columns.foldl (fun n c => n + (ident c.1).utf8ByteSize + 5) (ident name).utf8ByteSize
  let lineBreak := if width < lineWidth then "" else "\n"
  let indented := if width < lineWidth then "" else "\n  "
  "CREATE TABLE " ++ plainIdent name ++ "(" ++ indented
    ++ ("," ++ indented).intercalate (columns.map fun (c, a) => plainIdent c ++ a.typeText)
    ++ lineBreak ++ ")"

end LazyQuery.Sql
