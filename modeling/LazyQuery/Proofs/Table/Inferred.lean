import LazyQuery.Proofs.Table.Declared

/-!
# Types that are inferred

Unification is a join of types: it is commutative and associative, a type takes in itself, and the type of
nulls is taken in by all. Inference is therefore a homomorphism from the lists of values (`inferType_append`)
that does not see their order (`inferType_perm`).

The type that is inferred for some values takes in the type of each of them (`unify_inferType`). Values
are *uniform* if each shows just the inferred type or is missing. Values of any mixture of types without
texts become so once they are given the inferred type (`uniform_coerce`), and a table of uniform columns
does not change when it is given the types that are inferred for it
(`Table.coerce_inferSchema_of_uniform`).
-/

set_option autoImplicit false

namespace LazyQuery

namespace DataType

theorem unify_self (t : DataType) : t.unify t = t := if_pos rfl

theorem null_unify (t : DataType) : null.unify t = t := by
  cases t <;> rfl

theorem unify_null (t : DataType) : t.unify null = t := by
  cases t <;> rfl

theorem unify_comm (t d : DataType) : t.unify d = d.unify t := by
  cases t <;> cases d <;> rfl

theorem unify_assoc (t d e : DataType) : (t.unify d).unify e = t.unify (d.unify e) := by
  cases t <;> cases d <;> cases e <;> rfl

theorem unify_right_comm (t d e : DataType) : (t.unify d).unify e = (t.unify e).unify d := by
  rw [unify_assoc, unify_comm d, ← unify_assoc]

end DataType

/-! ## Inference as a homomorphism -/

/-- Where inference has got to from any type, the type of what it has seen is taken in by that one. -/
theorem foldl_unify (values : List Scalar) (t : DataType) :
    values.foldl (fun t v => t.unify v.dataType) t = t.unify (inferType values) := by
  induction values using List.reverseRecOn with
  | nil => exact t.unify_null.symm
  | append_singleton values v ih =>
    rw [inferType, List.foldl_append, List.foldl_append, ih]
    exact DataType.unify_assoc _ _ _

/-- **What is inferred for two lists of values together** is the unification of the types of both. -/
theorem inferType_append (xs ys : List Scalar) :
    inferType (xs ++ ys) = (inferType xs).unify (inferType ys) := by
  rw [inferType, List.foldl_append, foldl_unify]
  rfl

/-- **The order of the values** does not count. -/
theorem inferType_perm {xs ys : List Scalar} (h : xs.Perm ys) : inferType xs = inferType ys :=
  h.foldl_eq' (fun _ _ _ _ _ => DataType.unify_right_comm _ _ _) _

theorem inferType_singleton (v : Scalar) : inferType [v] = v.dataType :=
  DataType.null_unify _

/-- The inferred type takes in the type of each value. -/
theorem unify_inferType {values : List Scalar} {v : Scalar} (hv : v ∈ values) :
    (inferType values).unify v.dataType = inferType values := by
  obtain ⟨front, back, rfl⟩ := List.append_of_mem hv
  rw [inferType_perm List.perm_middle, ← List.singleton_append, inferType_append,
    inferType_singleton, DataType.unify_right_comm, DataType.unify_self]

/-! ## Uniform values -/

/-- Each value shows the inferred type, or is missing. -/
def Uniform (values : List Scalar) : Prop :=
  ∀ v ∈ values, v.isNull = false → v.dataType = inferType values

variable {values : List Scalar} {type : DataType}

/-- Values of one type show it, or nothing if all of them are missing. -/
theorem inferType_cases (h : ∀ v ∈ values, v.isNull = false → v.dataType = type) :
    inferType values = type ∨ inferType values = .null ∧ ∀ v ∈ values, v = .null := by
  induction values using List.reverseRecOn with
  | nil => exact .inr ⟨rfl, nofun⟩
  | append_singleton values v ih =>
    simp only [List.forall_mem_append, List.forall_mem_singleton] at h ⊢
    rw [inferType_append, inferType_singleton]
    by_cases hv : v = .null
    · subst hv
      rw [show Scalar.null.dataType = .null from rfl, DataType.unify_null]
      exact (ih h.1).imp_right fun ⟨htype, hnone⟩ => ⟨htype, hnone, rfl⟩
    · have hn : v.isNull = false := by cases v <;> first | rfl | exact absurd rfl hv
      rw [h.2 hn]
      obtain htype | ⟨htype, -⟩ := ih h.1
      · exact .inl (by rw [htype, DataType.unify_self])
      · exact .inl (by rw [htype, DataType.null_unify])

theorem uniform_of_type (type : DataType)
    (h : ∀ v ∈ values, v.isNull = false → v.dataType = type) : Uniform values := by
  intro v hv hn
  obtain htype | ⟨-, hnone⟩ := inferType_cases h
  · rw [htype, h v hv hn]
  · rw [hnone v hv] at hn
    cases hn

/-- A value is converted to any type that takes in its own, but for that of texts. -/
theorem Scalar.dataType_coerce {v : Scalar} (h : type.unify v.dataType = type) (ht : type ≠ .utf8)
    (hv : v.isNull = false) : (v.coerce type).dataType = type := by
  cases type <;> cases v <;>
    first | rfl | exact absurd rfl ht | exact Bool.noConfusion hv | exact DataType.noConfusion h

/-- Values without texts all show the inferred type once they are given it. -/
theorem dataType_coerce_inferType (h : inferType values ≠ .utf8) {w : Scalar}
    (hw : w ∈ values.map (Scalar.coerce (inferType values))) (hn : w.isNull = false) :
    w.dataType = inferType values := by
  obtain ⟨v, hv, rfl⟩ := List.mem_map.1 hw
  rw [Scalar.isNull_coerce] at hn
  exact Scalar.dataType_coerce (unify_inferType hv) h hn

/-- **Values without texts agree on the type that is inferred for them.** -/
theorem uniform_coerce (h : inferType values ≠ .utf8) :
    Uniform (values.map (Scalar.coerce (inferType values))) :=
  uniform_of_type (inferType values) fun _ => dataType_coerce_inferType h

/-- To give values the type that is inferred for them does not change what is inferred. -/
theorem inferType_coerce (values : List Scalar) :
    inferType (values.map (Scalar.coerce (inferType values))) = inferType values := by
  by_cases ht : inferType values = .utf8
  · rw [ht, List.map_id'' fun v => ?_, ht]
    cases v <;> rfl
  · obtain h | ⟨h, hnone⟩ := inferType_cases fun _ => dataType_coerce_inferType ht
    · exact h
    · -- If nothing is left to show a type, then nothing did so before.
      have hnull : ∀ v ∈ values, v.isNull = false → v.dataType = .null := by
        intro v hv hn
        rw [← Scalar.isNull_coerce (inferType values), hnone _ (List.mem_map_of_mem hv)] at hn
        cases hn
      obtain h' | ⟨h', -⟩ := inferType_cases hnull <;> rw [h, h']

theorem Uniform.coerce_eq (h : Uniform values) {v : Scalar} (hv : v ∈ values) :
    v.coerce (inferType values) = v := by
  cases hn : v.isNull with
  | true =>
    obtain rfl : v = .null := by cases v <;> first | rfl | cases hn
    exact Scalar.coerce_null _
  | false => rw [← h v hv hn, Scalar.coerce_dataType]

namespace Table

variable {x : Table}

theorem names_inferSchema (x : Table) : x.inferSchema.names = x.names := by
  rw [Schema.names, inferSchema, List.map_map]
  rfl

theorem field?_inferSchema (x : Table) (name : String) : x.inferSchema.field? name =
    (x.column? name).map fun c => ⟨c.name, inferType c.values, c.values.any Scalar.isNull⟩ := by
  rw [Schema.field?, inferSchema, List.find?_map]
  rfl

theorem inferSchema_field? (hx : x.names.Nodup) {c : Column} (hc : c ∈ x.columns) :
    x.inferSchema.field? c.name = some ⟨c.name, inferType c.values, c.values.any Scalar.isNull⟩ := by
  rw [field?_inferSchema, column?_of_mem hx hc]
  rfl

/-- Columns that are given the inferred types, whatever their cells have become. -/
theorem coerce_columns (hx : x.Valid) (change : Column → List Scalar) :
    (Table.mk (x.columns.map fun c => ⟨c.name, change c⟩)).coerce x.inferSchema =
      ⟨x.columns.map fun c => ⟨c.name, (change c).map (Scalar.coerce (inferType c.values))⟩⟩ := by
  rw [Table.coerce, List.map_map, Table.mk.injEq]
  refine List.map_congr_left fun c hc => ?_
  dsimp only [Function.comp]
  rw [inferSchema_field? hx.2 hc]

theorem coerce_inferSchema (hx : x.Valid) : x.coerce x.inferSchema =
    ⟨x.columns.map fun c => ⟨c.name, c.values.map (Scalar.coerce (inferType c.values))⟩⟩ := by
  have h := coerce_columns hx Column.values
  rwa [List.map_id''] at h
  exact fun c => rfl

/-- **A table of uniform columns** is as the types that are inferred for it would make it. -/
theorem coerce_inferSchema_of_uniform (hx : x.Valid) (h : ∀ c ∈ x.columns, Uniform c.values) :
    x.coerce x.inferSchema = x := by
  refine coerce_eq_self_iff_mem.2 fun c hc f hf v hv => ?_
  rw [inferSchema_field? hx.2 hc, Option.some.injEq] at hf
  subst hf
  exact (h c hc).coerce_eq hv

/-- A table that is given the types that are inferred for it still shows them. -/
theorem inferSchema_coerce (hx : x.Valid) : (x.coerce x.inferSchema).inferSchema = x.inferSchema := by
  rw [coerce_inferSchema hx, inferSchema, inferSchema, List.map_map]
  refine congrArg Schema.mk (List.map_congr_left fun c _ => ?_)
  simp [inferType_coerce, List.any_map, Function.comp_def, Scalar.isNull_coerce]

end Table
end LazyQuery
