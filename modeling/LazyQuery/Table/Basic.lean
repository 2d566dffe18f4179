import LazyQuery.Schema.Basic

/-!
# Tables

A `Table` is a list of named columns. It is `Valid` if its columns are equally long and their names
distinct; `Table.ofColumns` and `Table.ofRows` refuse anything else.

The columns can be read row by row (`row`, `rows`), cut down to chosen rows (`take`), described by a
schema (`inferSchema`) and given the types of a schema (`coerce`).
-/

set_option autoImplicit false

namespace LazyQuery

/-- A named column of values. -/
structure Column where
  name : String
  values : List Scalar
  deriving DecidableEq, Inhabited

/-- The type that all values of a list agree on. -/
def inferType (values : List Scalar) : DataType :=
  values.foldl (fun t v => t.unify v.dataType) .null

/-- A table, column by column. -/
structure Table where
  columns : List Column
  deriving DecidableEq, Inhabited

namespace Table

/-- The number of rows, which is the length of the first column. -/
def rowCount (t : Table) : Nat :=
  match t.columns with
  | [] => 0
  | c :: _ => c.values.length

/-- The column names, in order. -/
def names (t : Table) : List String := t.columns.map (·.name)

/-- Columns of one length under distinct names. -/
def Valid (t : Table) : Prop :=
  (∀ c ∈ t.columns, c.values.length = t.rowCount) ∧ t.names.Nodup

/-- The first fault of the columns from some point on: a column of another length, or a name that
occurred before. -/
def checkColumns (rows : Nat) : List String → List Column → Except ConstructionError Unit
  | _, [] => pure ()
  | seen, c :: rest =>
    if c.values.length ≠ rows then throw (.columnLength c.name c.values.length rows)
    else if c.name ∈ seen then throw (.duplicateColumn c.name)
    else checkColumns rows (c.name :: seen) rest

/-- The table of the given columns, if it is valid. -/
def ofColumns (columns : List Column) : Except ConstructionError Table := do
  checkColumns (Table.mk columns).rowCount [] columns
  pure ⟨columns⟩

/-- The first fault of the rows from number `i` on: a row of another width. -/
def checkRows (width : Nat) : Nat → List (List Scalar) → Except ConstructionError Unit
  | _, [] => pure ()
  | i, r :: rest =>
    if r.length ≠ width then throw (.rowWidth i r.length width) else checkRows width (i + 1) rest

/-- The table of the given rows under the given names. -/
def ofRows (names : List String) (rows : List (List Scalar)) : Except ConstructionError Table := do
  checkRows names.length 0 rows
  ofColumns (names.zipIdx.map fun (n, i) => ⟨n, rows.map fun r => r.getD i .null⟩)

/-- The first column of the given name. -/
def column? (t : Table) (name : String) : Option Column :=
  t.columns.find? (·.name == name)

/-- The schema that the values show. -/
def inferSchema (t : Table) : Schema :=
  ⟨t.columns.map fun c => ⟨c.name, inferType c.values, c.values.any Scalar.isNull⟩⟩

/-- The cells of row number `i`. -/
def row (t : Table) (i : Nat) : List Scalar :=
  t.columns.map fun c => c.values.getD i .null

/-- The table row by row. -/
def rows (t : Table) : List (List Scalar) :=
  (List.range t.rowCount).map t.row

/-- The rows of the given numbers, in the order given. -/
def take (t : Table) (indices : List Nat) : Table :=
  ⟨t.columns.map fun c => ⟨c.name, indices.map fun i => c.values.getD i .null⟩⟩

/-- The columns of the given names. -/
def keyColumns (t : Table) (keys : List String) : Except PlanError (List Column) :=
  keys.mapM fun k =>
    match t.column? k with
    | some c => pure c
    | none => throw (.schema (.missingKey k))

/-- Give each column that the schema names the declared type. -/
def coerce (t : Table) (s : Schema) : Table :=
  ⟨t.columns.map fun c =>
    match s.field? c.name with
    | some f => ⟨c.name, c.values.map (Scalar.coerce f.type)⟩
    | none => c⟩

end Table
end LazyQuery
