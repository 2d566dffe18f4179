import LazyQuery.Proofs.Memory.Budget
import LazyQuery.Proofs.Table.Cells

/-!
# Estimates for columns of fixed width

The bytes of a table are estimated from its schema and its number of rows. Where every value of a type
counts for the same bytes, the estimate is never too low.

* `Column.bytes_le` and `Column.bytes_eq` compare a column with what its field calls for in so many rows,
  and `Table.bytes_le` and `Table.bytes_eq` compare a table with its schema.
* `Result.bytes_collapse_le` is about a table that is collapsed to its one row.
* `Table.bytes_le_estimateBytes` and the two lemmas after it put this in terms of the estimate, which is a
  word and stays at the largest word.
-/

set_option autoImplicit false

namespace LazyQuery

open scoped Numbers

/-! ## Cells -/

/-- Do all values of the type count for the same bytes? -/
def DataType.isFixedWidth : DataType → Bool
  | null | boolean | int64 | float64 => true
  | utf8 | binary => false

/-- All columns are of types of fixed width. -/
def Schema.IsFixedWidth (s : Schema) : Prop := ∀ f ∈ s.fields, f.type.isFixedWidth = true

/-- Cells of the type of their column, and missing ones. -/
def CellLaw.ofType : CellLaw := fun type _ v => v.isNull = true ∨ v.dataType = type

/-- Nothing is missing in columns of integers and of floats. -/
def Table.IsFull (t : Table) (s : Schema) : Prop :=
  ∀ c ∈ t.columns, ∀ f ∈ s.fields, c.name = f.name → f.type = .int64 ∨ f.type = .float64 →
    ∀ v ∈ c.values, v.isNull = false

variable {type : DataType} {nullable : Bool} {v : Scalar} {values : List Scalar} {width rows : Nat}
  {f : Field} {c : Column} {s : Schema} {t : Table}

theorem DataType.width_pos (type : DataType) : 0 < type.width := by
  cases type <;> decide

theorem Scalar.bytes_pos (v : Scalar) : 0 < v.bytes := by
  cases v <;> simp only [bytes, varHeader] <;> omega

theorem Scalar.bytes_le_width (ht : type.isFixedWidth = true) (hv : CellLaw.ofType type nullable v) :
    v.bytes ≤ type.width := by
  obtain hnull | rfl := hv
  · cases v <;> cases hnull
    exact type.width_pos
  · cases v <;> first | exact Nat.le_refl _ | cases ht

/-- Null counts for less than a value among integers and floats only. -/
theorem Scalar.bytes_eq_width (ht : type.isFixedWidth = true) (hv : CellLaw.ofType type nullable v)
    (hf : type = .int64 ∨ type = .float64 → v.isNull = false) : v.bytes = type.width := by
  obtain hnull | rfl := hv
  · cases v <;> cases hnull
    cases type with
    | null | boolean => rfl
    | int64 => exact absurd (hf (.inl rfl)) (by decide)
    | float64 => exact absurd (hf (.inr rfl)) (by decide)
    | utf8 | binary => cases ht
  · cases v <;> first | rfl | cases ht

/-! ## Columns -/

/-- The bytes of a column of the field where every row has a value. -/
def Field.bytesFor (f : Field) (rows : Nat) : Nat :=
  columnOverhead + f.name.utf8ByteSize + rows * f.type.width

theorem length_le_cellBytes (values : List Scalar) : values.length ≤ cellBytes values := by
  induction values with
  | nil => exact Nat.zero_le _
  | cons v rest ih =>
    have hpos := v.bytes_pos
    simp only [cellBytes, List.map_cons, List.sum_cons, List.length_cons] at ih ⊢
    omega

theorem cellBytes_le (h : ∀ v ∈ values, v.bytes ≤ width) : cellBytes values ≤ values.length * width := by
  induction values with
  | nil => exact Nat.zero_le _
  | cons v rest ih =>
    obtain ⟨hv, hrest⟩ := List.forall_mem_cons.1 h
    have hle := ih hrest
    simp only [cellBytes, List.map_cons, List.sum_cons, List.length_cons, Nat.add_one_mul] at hle ⊢
    omega

theorem cellBytes_eq (h : ∀ v ∈ values, v.bytes = width) : cellBytes values = values.length * width := by
  rw [cellBytes, List.map_congr_left h, List.map_const', List.sum_replicate_nat]

theorem Column.bytes_le (h : c.Obeys .ofType f) (hf : f.type.isFixedWidth = true)
    (hlen : c.values.length = rows) : c.bytes ≤ f.bytesFor rows := by
  have hcells := cellBytes_le fun v hv => Scalar.bytes_le_width hf (h.cells v hv)
  rw [hlen] at hcells
  rw [bytes, Field.bytesFor, h.name]
  omega

theorem Column.bytes_eq (h : c.Obeys .ofType f) (hf : f.type.isFixedWidth = true)
    (hfull : f.type = .int64 ∨ f.type = .float64 → ∀ v ∈ c.values, v.isNull = false)
    (hlen : c.values.length = rows) : c.bytes = f.bytesFor rows := by
  have hcells := cellBytes_eq fun v hv =>
    Scalar.bytes_eq_width hf (h.cells v hv) fun hwide => hfull hwide v hv
  rw [bytes, Field.bytesFor, h.name, hcells, hlen]

/-! ## Tables -/

theorem Schema.sum_bytesFor (s : Schema) (rows : Nat) : (s.fields.map (·.bytesFor rows)).sum =
    s.headerBytes + rows * (s.fields.map fun f => f.type.width).sum := by
  rw [headerBytes]
  generalize s.fields = fields
  induction fields with
  | nil => rfl
  | cons f rest ih =>
    simp only [List.map_cons, List.sum_cons, Nat.mul_add, Field.bytesFor] at ih ⊢
    omega

/-- The width of a row is that of its cells, if there are any. -/
theorem Schema.rowWidth_eq (h : s.fields ≠ []) :
    s.rowWidth = (s.fields.map fun f => f.type.width).sum := by
  obtain ⟨f, rest, hfields⟩ := List.exists_cons_of_ne_nil h
  have hpos := f.type.width_pos
  rw [rowWidth, hfields, List.map_cons, List.sum_cons]
  omega

theorem sum_le_sum {xs ys : List Nat} (h : List.Forall₂ (· ≤ ·) xs ys) : xs.sum ≤ ys.sum := by
  induction h with
  | nil => exact Nat.le_refl _
  | cons hle _ ih => exact Nat.add_le_add hle ih

namespace Table

theorem Obeys.forall₂ {law : CellLaw} {R : Column → Field → Prop} (ho : t.Obeys law s)
    (h : ∀ c ∈ t.columns, ∀ f ∈ s.fields, c.Obeys law f → R c f) :
    List.Forall₂ R t.columns s.fields := by
  obtain ⟨hlen, hpairs⟩ := List.forall₂_iff_zip.1 ho.columns
  refine List.forall₂_iff_zip.2 ⟨hlen, fun {c f} hp => ?_⟩
  obtain ⟨hc, hf⟩ := List.of_mem_zip hp
  exact h c hc f hf (hpairs hp)

/-- What the schema calls for in so many rows, where the least width of a row does not matter. -/
theorem sum_bytesFor_eq (ho : t.Obeys .ofType s) :
    (s.fields.map (·.bytesFor t.rowCount)).sum = s.headerBytes + t.rowCount * s.rowWidth := by
  rw [s.sum_bytesFor]
  by_cases hempty : s.fields = []
  · have hnil : t.columns = [] := by
      have hcolumns := ho.columns
      rwa [hempty, List.forall₂_nil_right_iff] at hcolumns
    have hrows : t.rowCount = 0 := by rw [rowCount, hnil]
    rw [hrows, Nat.zero_mul, Nat.zero_mul]
  · rw [Schema.rowWidth_eq hempty]

/-- A table counts for no more than its schema calls for in its rows. -/
theorem bytes_le (hs : s.IsFixedWidth) (ht : t.Level) (ho : t.Obeys .ofType s) :
    t.bytes ≤ s.headerBytes + t.rowCount * s.rowWidth := by
  rw [bytes, ← sum_bytesFor_eq ho]
  refine sum_le_sum (List.forall₂_map_left_iff.2 (List.forall₂_map_right_iff.2 ?_))
  exact ho.forall₂ fun c hc f hf hobeys => Column.bytes_le hobeys (hs f hf) (ht c hc)

/-- A table in which nothing is missing where null counts for less counts for just as much. -/
theorem bytes_eq (hs : s.IsFixedWidth) (ht : t.Level) (ho : t.Obeys .ofType s) (hf : t.IsFull s) :
    t.bytes = s.headerBytes + t.rowCount * s.rowWidth := by
  rw [bytes, ← sum_bytesFor_eq ho]
  refine congrArg List.sum (List.forall₂_eq_eq_eq ▸ ?_)
  rw [List.forall₂_map_left_iff, List.forall₂_map_right_iff]
  exact ho.forall₂ fun c hc f hmem hobeys =>
    Column.bytes_eq hobeys (hs f hmem) (hf c hc f hmem hobeys.name) (ht c hc)

theorem rowCount_le_bytes (t : Table) : t.rowCount ≤ t.bytes := by
  obtain ⟨columns⟩ := t
  cases columns with
  | nil => exact Nat.zero_le _
  | cons c rest =>
    have hcells := length_le_cellBytes c.values
    simp only [rowCount, bytes, List.map_cons, List.sum_cons, Column.bytes]
    omega

theorem headerBytes_le_bytes {law : CellLaw} (ho : t.Obeys law s) : s.headerBytes ≤ t.bytes := by
  refine sum_le_sum (List.forall₂_map_left_iff.2 (List.forall₂_map_right_iff.2 (.flip ?_)))
  refine ho.forall₂ fun c _ f _ hobeys => ?_
  show columnOverhead + f.name.utf8ByteSize ≤ c.bytes
  rw [Column.bytes, hobeys.name]
  exact Nat.le_add_right _ _

end Table

namespace Result

theorem bytes_lastCell_le (hlen : c.values.length = 1) :
    c.name.utf8ByteSize + (c.values.getLastD .null).bytes ≤ c.bytes := by
  obtain ⟨v, hv⟩ := List.length_eq_one_iff.1 hlen
  simp only [Column.bytes, cellBytes, hv, List.getLastD_cons, List.getLastD_nil, List.map_cons, List.map_nil,
    List.sum_cons, List.sum_nil]
  omega

theorem toNat_footprint_le (v : Result) : v.footprint.toNat ≤ v.bytes := by
  rw [footprint, UInt64.toNat_ofNat']
  exact Nat.mod_le _ _

/-- Only the cells of a table that is collapsed count, and the names of columns if there are several. -/
theorem bytes_collapse_le (ht : t.Level) : (collapse t).bytes ≤ t.bytes := by
  rw [collapse]
  by_cases hrows : t.rowCount = 1
  · rw [if_neg (not_not.2 hrows)]
    have hcells : ∀ c ∈ t.columns,
        c.name.utf8ByteSize + (c.values.getLastD .null).bytes ≤ c.bytes :=
      fun c hc => bytes_lastCell_le ((ht c hc).trans hrows)
    rw [Table.bytes]
    split
    · rename_i c hc
      have hcell := hcells c (by rw [hc]; exact List.mem_singleton_self c)
      rw [hc, List.map_singleton, List.sum_singleton, bytes]
      omega
    · rw [bytes, List.map_map]
      refine sum_le_sum (List.forall₂_map_left_iff.2 (List.forall₂_map_right_iff.2 ?_))
      exact List.forall₂_same.2 hcells
  · rw [if_pos hrows, bytes]

end Result

/-! ## The estimate -/

/-- The estimate is what the schema calls for, or the largest word. -/
theorem Schema.toNat_estimateBytes (hheader : s.headerBytes < 2 ^ 64) (hrows : rows < 2 ^ 64) :
    (s.estimateBytes (UInt64.ofNat rows)).toNat = min (s.headerBytes + rows * s.rowWidth) maxWord := by
  have hcells : (saturated (rows * s.rowWidth)).toNat = min (rows * s.rowWidth) maxWord := by
    rw [saturated, UInt64.toNat_ofNat']
    exact Nat.mod_eq_of_lt (Nat.lt_of_le_of_lt (Nat.min_le_right _ _) (by decide))
  rw [estimateBytes, toNat_saturatingAdd, UInt64.toNat_ofNat_of_lt' hheader,
    UInt64.toNat_ofNat_of_lt' hrows, hcells]
  omega

namespace Table

theorem toNat_estimateBytes {law : CellLaw} (ho : t.Obeys law s) (hb : t.bytes < 2 ^ 64) :
    (s.estimateBytes (UInt64.ofNat t.rowCount)).toNat =
      min (s.headerBytes + t.rowCount * s.rowWidth) maxWord :=
  Schema.toNat_estimateBytes (Nat.lt_of_le_of_lt (headerBytes_le_bytes ho) hb)
    (Nat.lt_of_le_of_lt t.rowCount_le_bytes hb)

/-- The estimate for the rows of a table is no less than the bytes that it counts for. -/
theorem bytes_le_estimateBytes (hs : s.IsFixedWidth) (ht : t.Level) (ho : t.Obeys .ofType s)
    (hb : t.bytes < 2 ^ 64) : t.bytes ≤ (s.estimateBytes (UInt64.ofNat t.rowCount)).toNat := by
  have hle := bytes_le hs ht ho
  rw [toNat_estimateBytes ho hb, maxWord]
  omega

theorem bytes_eq_estimateBytes (hs : s.IsFixedWidth) (ht : t.Level) (ho : t.Obeys .ofType s)
    (hf : t.IsFull s) (hb : t.bytes < 2 ^ 64) :
    t.bytes = (s.estimateBytes (UInt64.ofNat t.rowCount)).toNat := by
  have heq := bytes_eq hs ht ho hf
  rw [toNat_estimateBytes ho hb, maxWord]
  omega

end Table
end LazyQuery
