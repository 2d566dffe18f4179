import LazyQuery.Error

/-!
# Schemas

A `Schema` lists the columns of a table: names, types and whether null can occur. Names are looked
up from the front, so of two fields with one name the first is meant.
-/

set_option autoImplicit false

namespace LazyQuery

/-- The description of one column. -/
structure Field where
  name : String
  type : DataType
  nullable : Bool
  deriving DecidableEq, Inhabited

/-- The columns of a table, in order. -/
structure Schema where
  fields : List Field
  deriving DecidableEq, Inhabited

/-- The first name of a list that occurs earlier in it. -/
def firstRepeated : List String → List String → Option String
  | _, [] => none
  | seen, n :: rest => if n ∈ seen then some n else firstRepeated (n :: seen) rest

namespace Schema

/-- The column names, in order. -/
def names (s : Schema) : List String := s.fields.map (·.name)

/-- The first field of the given name. -/
def field? (s : Schema) (name : String) : Option Field :=
  s.fields.find? (·.name == name)

/-- The position of the first field of the given name. -/
def index? (s : Schema) (name : String) : Option Nat :=
  s.fields.findIdx? (·.name == name)

/-- Is there a field of the given name? -/
def contains (s : Schema) (name : String) : Bool :=
  s.fields.any (·.name == name)

/-- Refuse columns that the schema lacks, naming all of them. -/
def require (s : Schema) (columns : List String) : Except ConstructionError Unit :=
  match columns.filter fun c => !s.contains c with
  | [] => pure ()
  | missing => throw (.missingColumns missing s.names)

/-- The fields of the given columns, in the order given. -/
def project (s : Schema) (columns : List String) : Except ConstructionError Schema := do
  s.require columns
  pure ⟨columns.filterMap s.field?⟩

/-- Do two schemas have the same columns, in any order? -/
def sameColumns (s t : Schema) : Bool :=
  s.fields.length == t.fields.length && s.fields.all fun f => t.contains f.name

/-- Put a field in the place of the first one of its name, or at the end. -/
def put (s : Schema) (f : Field) : Schema :=
  match s.index? f.name with
  | some i => ⟨s.fields.set i f⟩
  | none => ⟨s.fields ++ [f]⟩

/-- The field of a union for a field of its first source and the schema of another source. -/
def widen (t : Schema) (f : Field) : Field :=
  match t.field? f.name with
  | some g => { f with type := f.type.unify g.type, nullable := f.nullable || g.nullable }
  | none => f

end Schema
end LazyQuery
