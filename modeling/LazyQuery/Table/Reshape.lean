import LazyQuery.Summary.Aggregate
import LazyQuery.Table.Sort

/-!
# Reshaping tables

Choosing, renaming, stacking and replacing columns, and choosing rows: without repetitions, by a
mask, or from the front.
-/

set_option autoImplicit false

namespace LazyQuery.Table

/-- The table of the given columns, as a step of an evaluation in memory. -/
def build (columns : List Column) : Except FrameError Table :=
  (ofColumns columns).mapError fun e => .plan (.construction e)

/-- The given columns, in the order given. -/
def select (t : Table) (columns : List String) : Except FrameError Table := do
  build (← columns.mapM t.need)

/-- The new name of a column under a list of pairs of old and new names. -/
def newName (mapping : List (String × String)) (name : String) : String :=
  match mapping.find? (·.1 == name) with
  | some (_, renamed) => renamed
  | none => name

/-- The table with columns renamed; columns that are not mentioned keep their names. -/
def rename (t : Table) (mapping : List (String × String)) : Except FrameError Table := do
  mapping.forM fun (old, _) => do let _ ← t.need old
  build (t.columns.map fun c => ⟨newName mapping c.name, c.values⟩)

/-- The table without rows that repeat an earlier one. -/
def dropDuplicates (t : Table) : Except FrameError Table := do
  let digests ← t.rowDigests t.names
  pure (t.take (firstPositions [] 0 digests))

/-- The values that each of the tables holds in the given columns, appended to what is there. -/
def appendTo (out : List Column) (t : Table) : Except FrameError (List Column) := do
  if t.columns.length ≠ out.length then
    throw (.schema (.concatWidth t.columns.length out.length))
  out.mapM fun c => do
    let more ← t.need c.name
    pure ⟨c.name, c.values ++ more.values⟩

/-- The tables stacked, columns being matched by name and put in the order given. -/
def concat (tables : List Table) (columns : List String) : Except FrameError Table := do
  build (← tables.foldlM appendTo (columns.map fun c => ⟨c, []⟩))

/-- The table with a column replaced, or appended if there is none of its name. -/
def assignColumn (t : Table) (name : String) (values : List Scalar) : Except FrameError Table := do
  if values.length ≠ t.rowCount ∧ ¬t.columns.isEmpty then
    throw (.length t.rowCount values.length)
  pure <| match t.columns.findIdx? (·.name == name) with
    | some i => ⟨t.columns.set i ⟨name, values⟩⟩
    | none => ⟨t.columns ++ [⟨name, values⟩]⟩

/-- The rows whose mask is true. -/
def filter (t : Table) (mask : List Scalar) : Except FrameError Table := do
  if mask.length ≠ t.rowCount then throw (.length t.rowCount mask.length)
  pure (t.take ((mask.zipIdx.filter fun (m, _) => m.truth? == some true).map (·.2)))

/-- The first `n` rows. -/
def limit (t : Table) (n : Nat) : Table :=
  t.take (List.range (min n t.rowCount))

/-- The rows sorted by some columns. -/
def sortValues (t : Table) (keys : List (String × Bool)) : Except FrameError Table :=
  (t.sortBy keys).mapError .plan

end LazyQuery.Table
