import LazyQuery.Schema.Basic

/-!
# The columns of a join

A `JoinLayout` says which columns an equi-join yields and where they come from. A pair of keys with
one name becomes a single column, taken from the left. Any other name that occurs on both sides gets
a suffix that tells the sides apart.
-/

set_option autoImplicit false

namespace LazyQuery

/-- Where the columns of a join come from, and its schema. -/
structure JoinLayout where
  /-- The left columns with their output names, in left order. -/
  left : List (String × String)
  /-- The right columns with their output names, in right order and without merged keys. -/
  right : List (String × String)
  schema : Schema
  deriving DecidableEq, Inhabited

namespace JoinLayout

/-- What a left column's name gets when the right side has it too. -/
def leftSuffix : String := "_x"

/-- What a right column's name gets when the left side has it too. -/
def rightSuffix : String := "_y"

/-- The keys that have one name on both sides. -/
def mergedKeys (leftOn rightOn : List String) : List String :=
  ((leftOn.zip rightOn).filter fun (l, r) => l == r).map (·.1)

/-- The layout of a join of two schemas on paired keys. The right columns of an outer join can be
null. -/
def make (left right : Schema) (leftOn rightOn : List String) (outer : Bool) :
    Except ConstructionError JoinLayout := do
  if leftOn.isEmpty || leftOn.length != rightOn.length then
    throw (.unpairedJoinKeys leftOn.length rightOn.length)
  left.require leftOn
  right.require rightOn
  let merged := mergedKeys leftOn rightOn
  let output (suffix name : String) : String :=
    if !merged.contains name && left.contains name && right.contains name then name ++ suffix
    else name
  let kept := right.fields.filter fun f => !merged.contains f.name
  let leftColumns := left.fields.map fun f => (f.name, output leftSuffix f.name)
  let rightColumns := kept.map fun f => (f.name, output rightSuffix f.name)
  let fields :=
    left.fields.map (fun f => { f with name := output leftSuffix f.name })
      ++ kept.map fun f =>
        { f with name := output rightSuffix f.name, nullable := f.nullable || outer }
  match firstRepeated [] (fields.map (·.name)) with
  | some name => throw (.duplicateJoinColumn name)
  | none => pure ⟨leftColumns, rightColumns, ⟨fields⟩⟩

end JoinLayout
end LazyQuery
