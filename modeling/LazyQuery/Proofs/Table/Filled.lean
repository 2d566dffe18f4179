import LazyQuery.Proofs.Table.DeclaredAggregates

/-!
# Columns without missing values

A table *fits* a schema if its columns are those of the schema and null stands only where the schema
allows it (`Table.Fits`). As a law for cells this is `CellLaw.filled`, and it does not let null stand
anywhere: an operation that reads cells must read them in rows that are there.

* Aggregates that are declared without nulls have none, whatever they are taken of
  (`aggregate_isNull`).
* `Table.Fits.aggregateGroups` and the lemmas around it are the operations whose fields are not those of
  the columns they work on.
-/

set_option autoImplicit false

namespace LazyQuery

/-- Null stands only where it is allowed. -/
def CellLaw.filled : CellLaw := fun _ nullable v => nullable = false → v.isNull = false

theorem CellLaw.lenient_filled : CellLaw.filled.Lenient :=
  ⟨fun _ h => (by cases h), fun _ h => (by cases h)⟩

/-- **What is declared without nulls has none**: counts, sums, products and truth values. -/
theorem aggregate_isNull {func : AggFunc} (hf : func.isNullable = false) {values : List Scalar}
    {v : Scalar} (h : aggregate func values = .ok v) : v.isNull = false := by
  have number (r : Running) : r.toScalar.isNull = false := by cases r <;> rfl
  cases func with
  | mean | min | max => cases hf
  | count | any | all =>
    obtain rfl := Except.ok.inj h
    rfl
  | sum =>
    obtain ⟨f, -, h⟩ := bind_eq_ok.1 (show Aggregate.sum _ = .ok v from h)
    simp only [throw_eq_error, error_bind, ite_error_eq_ok] at h
    obtain rfl := Except.ok.inj h.2
    exact number _
  | prod =>
    obtain ⟨f, -, h⟩ := bind_eq_ok.1 (show Aggregate.prod _ = .ok v from h)
    obtain rfl := Except.ok.inj h
    exact number _

namespace Table

variable {t u : Table} {s : Schema} {func : AggFunc} {keys names : List String}

/-- No value is missing in a column that the schema declares without nulls. -/
def Filled (t : Table) (s : Schema) : Prop :=
  ∀ c ∈ t.columns, ∀ f ∈ s.fields, f.name = c.name → f.nullable = false →
    ∀ v ∈ c.values, v.isNull = false

/-- The columns of the table are those of the schema, and null stands only where the schema allows it. -/
structure Fits (t : Table) (s : Schema) : Prop extends t.HasColumns s where
  filled : t.Filled s

theorem Filled.coerce (h : t.Filled s) (s' : Schema) : (t.coerce s').Filled s := by
  intro c hc f hf hname hnull v hv
  obtain ⟨d, hd, rfl⟩ := List.mem_map.1 hc
  cases hfield : s'.field? d.name with
  | none =>
    rw [hfield] at hname hv
    exact h d hd f hf hname hnull v hv
  | some g =>
    rw [hfield] at hname hv
    obtain ⟨x, hx, rfl⟩ := List.mem_map.1 hv
    rw [Scalar.isNull_coerce]
    exact h d hd f hf hname hnull x hx

/-- Fitting is obeying a law: under distinct names every column has the field that stands in its place. -/
theorem fits_iff_obeys : t.Fits s ↔ t.Obeys .filled s := by
  constructor
  · intro h
    have hnodup : s.names.Nodup := h.names ▸ h.nodup
    refine ⟨hnodup, List.forall₂_iff_get.2 ⟨?_, fun i hi hi' => ?_⟩⟩
    · simpa [names, Schema.names] using congrArg List.length h.names
    · have hname : t.columns[i].name = s.fields[i].name := by
        have := List.getElem_of_eq h.names (i := i) (by simpa [names] using hi)
        simpa [names, Schema.names] using this
      exact ⟨hname, fun v hv hnull => h.filled _ (List.getElem_mem hi) _ (List.getElem_mem hi')
        hname.symm hnull v hv⟩
  · intro h
    refine ⟨⟨h.names, h.names ▸ h.nodup⟩, fun c hc f hf hname hnull v hv => ?_⟩
    obtain ⟨i, hi, rfl⟩ := List.getElem_of_mem hc
    have hi' := h.columns.length_eq ▸ hi
    have hobeys := h.columns.get hi hi'
    have hfield : s.fields.get ⟨i, hi'⟩ = f := List.inj_on_of_nodup_map h.nodup
      (List.getElem_mem hi') hf (hobeys.name.symm.trans hname.symm)
    exact hobeys.cells v hv (by rw [hfield]; exact hnull)

/-! ## Aggregates -/

theorem Aggregates.obeys_filled {n : String} {out : Column} {f : Field}
    (ho : t.Aggregates func keys n out) (hf : Graph.aggregateField s func n = .ok f) :
    out.Obeys .filled f := by
  obtain ⟨g, -, rfl⟩ := aggregateField_eq_ok hf
  obtain ⟨c, -, hvalues⟩ := ho.values
  refine ⟨ho.name, fun v hv hnull => ?_⟩
  obtain ⟨part, -, hpart⟩ := exists_of_mem_right hvalues hv
  exact aggregate_isNull hnull hpart

theorem aggregates_obey_filled {out : List Column} {fields : List Field}
    (ho : List.Forall₂ (t.Aggregates func keys) names out)
    (hf : List.Forall₂ (fun n f => Graph.aggregateField s func n = .ok f) names fields) :
    List.Forall₂ (Column.Obeys .filled) out fields := by
  induction ho generalizing fields with
  | nil =>
    cases hf
    exact .nil
  | cons hd _ ih =>
    obtain ⟨⟩ | ⟨hfield, hf⟩ := hf
    exact .cons (hd.obeys_filled hfield) (ih hf)

theorem fits_aggregateTable {fields : List Field}
    (hf : names.mapM (Graph.aggregateField s func) = .ok fields)
    (hu : t.aggregateTable func names = .ok u) : u.Fits ⟨fields⟩ := by
  obtain ⟨⟨-, hnodup⟩, ho⟩ := aggregateTable_spec hu
  exact fits_iff_obeys.2 (obeys_of_columns (aggregates_obey_filled ho (mapM_eq_ok.1 hf)) hnodup)

theorem Fits.aggregateGroups (h : t.Fits s) (hl : t.Level) {keyFields fields : List Field}
    (hne : keys ≠ []) (hk : keys.mapM (Graph.keyField s) = .ok keyFields)
    (hf : names.mapM (Graph.aggregateField s func) = .ok fields)
    (hu : t.aggregateGroups keys names func = .ok u) : u.Fits ⟨keyFields ++ fields⟩ := by
  obtain ⟨gs, keyColumns, out, hgs, hkeys, rfl, ⟨-, hnodup⟩, ho⟩ := aggregateGroups_spec hne hu
  refine fits_iff_obeys.2 (obeys_of_columns (List.rel_append (R := Column.Obeys .filled) ?_ ?_) hnodup)
  · exact keyColumns_obey (fits_iff_obeys.1 h) (fun g hg => hl.reads (headD_lt_of_mem_groups hgs hg))
      hkeys hk
  · exact aggregates_obey_filled ho (mapM_eq_ok.1 hf)

/-! ## Statistics -/

/-- The labels of statistics are there, and nulls are allowed among the statistics. -/
theorem Fits.describe (h : t.Fits s) (hu : Describe.describe t = .ok u) :
    u.Fits (Describe.schema s) := by
  obtain ⟨rfl, -, hnodup⟩ := ofColumns_eq_ok.1 (mapError_eq_ok.1 hu)
  refine fits_iff_obeys.2 (obeys_of_columns (.cons ⟨rfl, fun v hv _ => ?_⟩ ?_) hnodup)
  · obtain ⟨label, -, rfl⟩ := List.mem_map.1 hv
    rfl
  · rw [List.forall₂_map_left_iff, List.forall₂_map_right_iff]
    exact (fits_iff_obeys.1 h).columns.imp fun c f hc => ⟨hc.name, fun _ _ hnull => by cases hnull⟩

end Table
end LazyQuery
