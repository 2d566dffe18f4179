import LazyQuery.Proofs.Summary.Totals
import LazyQuery.Proofs.Table.Declared

/-!
# Aggregates as their types declare them

The aggregate of a column has the type that is declared for it, with one exception: a sum or product
of no value at all is an integer, also in a column of floats (`aggregate_declared_iff`).

* `Table.aggregands` lists the cells that each aggregate of a column is taken of.
* `Table.SumsSomething` says that no sum or product that is declared a float is one of no value.
* `aggregateTable_declared_iff` and `aggregateGroups_declared_iff` say that this decides whether the
  aggregates of a table, or of its groups, are as declared.
-/

set_option autoImplicit false

namespace LazyQuery

/-- Is the function a sum or a product? -/
def AggFunc.isFold : AggFunc → Bool
  | sum | prod => true
  | count | mean | min | max | any | all => false

/-! ## Single aggregates -/

/-- A sum or product is a number, and a float if there is a value and all are floats. -/
theorem aggregate_fold {func : AggFunc} (hf : func.isFold = true) {values : List Scalar} {v : Scalar}
    (h : aggregate func values = .ok v) : v.coerce .int64 = v ∧
      ((∀ w ∈ values, w.int? = none) →
        (v.coerce .float64 = v ↔ ∃ w ∈ values, w.isNull = false)) := by
  have number (r : Running) : r.toScalar.coerce .int64 = r.toScalar := by cases r <;> rfl
  have folded {exact : Int64 → Int64 → Option Int64} {inexact : Double → Double → Double} {i : Int64}
      {f : Fold} (hfold : (values.filter fun w => !w.isNull).foldlM (Fold.step exact inexact)
        ⟨.int i, false, false⟩ = .ok f) (hv : ∀ w ∈ values, w.int? = none) :
      f.result.toScalar.coerce .float64 = f.result.toScalar ↔ ∃ w ∈ values, w.isNull = false := by
    constructor
    · intro hdecl
      by_contra hnone
      have hnil : (values.filter fun w => !w.isNull) = [] := by
        rw [List.filter_eq_nil_iff]
        exact fun w hw hnull => hnone ⟨w, hw, by simpa using hnull⟩
      rw [hnil] at hfold
      obtain rfl := Except.ok.inj hfold
      cases hdecl
    · rintro ⟨w, hw, hnull⟩
      obtain ⟨x, hx⟩ := (Fold.foldlM_follows hfold).float
        (.inr ⟨w, List.mem_filter.2 ⟨hw, by simp [hnull]⟩, hv w hw⟩)
      rw [hx]
      rfl
  cases func with
  | sum =>
    obtain ⟨f, hfold, h⟩ := bind_eq_ok.1 (show Aggregate.sum _ = .ok v from h)
    simp only [throw_eq_error, error_bind, ite_error_eq_ok] at h
    obtain rfl := Except.ok.inj h.2
    exact ⟨number _, folded hfold⟩
  | prod =>
    obtain ⟨f, hfold, h⟩ := bind_eq_ok.1 (show Aggregate.prod _ = .ok v from h)
    obtain rfl := Except.ok.inj h
    exact ⟨number _, folded hfold⟩
  | _ => cases hf

/-- **An aggregate is of the type that is declared for it**, unless it is the sum or product of no value
of a column of floats. -/
theorem aggregate_declared_iff {func : AggFunc} {type : DataType} {values : List Scalar}
    (hv : ∀ w ∈ values, w.coerce type = w) {v : Scalar} (h : aggregate func values = .ok v) :
    v.coerce (func.resultType type) = v ↔
      (func.isFold = true → func.resultType type = .float64 → ∃ w ∈ values, w.isNull = false) := by
  have chosen {w : Scalar} (hw : w = .null ∨ w ∈ values.filter fun w => !w.isNull) :
      w.coerce type = w := by
    rcases hw with rfl | hw
    · exact Scalar.coerce_null _
    · exact hv w (List.mem_filter.1 hw).1
  have fold (hf : func.isFold = true) (htype : type ≠ .float64 → func.resultType type = .int64)
      (htype' : type = .float64 → func.resultType type = .float64) :
      v.coerce (func.resultType type) = v ↔
        (func.isFold = true → func.resultType type = .float64 → ∃ w ∈ values, w.isNull = false) := by
    obtain ⟨hint, hfloat⟩ := aggregate_fold hf h
    by_cases ht : type = .float64
    · subst ht
      rw [htype' rfl, hfloat fun w hw => Scalar.int?_eq_none (hv w hw)]
      exact ⟨fun hex _ _ => hex, fun hex => hex hf rfl⟩
    · rw [htype ht]
      exact iff_of_true hint fun _ hcontra => by cases hcontra
  cases func with
  | sum | prod =>
    exact fold rfl (fun ht => by cases type <;> first | rfl | exact absurd rfl ht) fun ht => by subst ht; rfl
  | count | any | all =>
    obtain rfl := Except.ok.inj h
    exact iff_of_true rfl nofun
  | min =>
    obtain rfl := Except.ok.inj h
    refine iff_of_true (chosen ?_) nofun
    exact (em (_ = [])).imp (fun h => by rw [h]; rfl) Aggregate.min_mem
  | max =>
    obtain rfl := Except.ok.inj h
    refine iff_of_true (chosen ?_) nofun
    exact (em (_ = [])).imp (fun h => by rw [h]; rfl) Aggregate.max_mem
  | mean =>
    obtain ⟨total, -, h⟩ := bind_eq_ok.1 (show Aggregate.mean _ = .ok v from h)
    obtain rfl := Except.ok.inj h
    refine iff_of_true ?_ nofun
    split <;> rfl

/-! ## Aggregated columns -/

namespace Table

variable {t u : Table} {s : Schema} {func : AggFunc} {keys names : List String}

/-- The cells that each aggregate of a column is taken of: all of them, or those of a group. -/
def aggregands (t : Table) (keys : List String) (c : Column) : List (List Scalar) :=
  if keys.isEmpty then [c.values]
  else
    match t.groups keys with
    | .ok gs => gs.map fun g => g.map fun i => c.values.getD i .null
    | .error _ => []

/-- No sum or product that a schema declares a float is one of no value. -/
def SumsSomething (t : Table) (func : AggFunc) (keys columns : List String) (s : Schema) : Prop :=
  func.isFold = true → ∀ n ∈ columns, ∀ f, s.field? n = some f → f.type = .float64 →
    ∀ c, t.column? n = some c → ∀ part ∈ t.aggregands keys c, ∃ v ∈ part, v.isNull = false

theorem aggregands_declared {c : Column} {f : Field} (h : c.IsDeclared f) {part : List Scalar}
    (hpart : part ∈ t.aggregands keys c) : ∀ v ∈ part, v.coerce f.type = v := by
  rw [aggregands] at hpart
  split at hpart
  · obtain rfl := List.mem_singleton.1 hpart
    exact h.values
  · split at hpart
    · obtain ⟨g, -, rfl⟩ := List.mem_map.1 hpart
      intro v hv
      obtain ⟨i, -, rfl⟩ := List.mem_map.1 hv
      exact h.getD i
    · cases hpart

/-- The aggregates of a column, one for each part of it. -/
structure Aggregates (t : Table) (func : AggFunc) (keys : List String) (n : String) (out : Column) :
    Prop where
  name : out.name = n
  values : ∃ c, t.column? n = some c ∧
    List.Forall₂ (fun part v => aggregate func part = .ok v) (t.aggregands keys c) out.values

/-- The field of aggregates follows from that of the column. -/
theorem aggregateField_eq_ok {n : String} {f : Field} (h : Graph.aggregateField s func n = .ok f) :
    ∃ g, s.field? n = some g ∧ f = ⟨n, func.resultType g.type, func.isNullable⟩ := by
  rw [Graph.aggregateField] at h
  split at h
  · cases h
  · rename_i g hg
    rw [Graph.refuse, throw_eq_error, ite_error_eq_ok] at h
    exact ⟨g, hg, (Except.ok.inj h.2).symm⟩

/-- The field of aggregates has their name and the type of the column's aggregate. -/
theorem aggregateField_spec {n : String} {f : Field}
    (h : Graph.aggregateField s func n = .ok f) :
    ∃ g, s.field? n = some g ∧ f.name = n ∧ f.type = func.resultType g.type := by
  obtain ⟨g, hg, rfl⟩ := aggregateField_eq_ok h
  exact ⟨g, hg, rfl, rfl⟩

theorem Aggregates.isDeclared_iff (h : t.IsDeclared s) {n : String} {out : Column} {f : Field}
    (ho : t.Aggregates func keys n out) (hf : Graph.aggregateField s func n = .ok f) :
    out.IsDeclared f ↔ (func.isFold = true → f.type = .float64 →
      ∀ c, t.column? n = some c → ∀ part ∈ t.aggregands keys c, ∃ v ∈ part, v.isNull = false) := by
  obtain ⟨g, hg, hname, htype⟩ := aggregateField_spec hf
  obtain ⟨c, hc, hvalues⟩ := ho.values
  obtain ⟨g', hg', hdecl⟩ := h.column? hc
  obtain rfl := Option.some.inj (hg.symm.trans hg')
  have single : ∀ part ∈ t.aggregands keys c, ∀ v, aggregate func part = .ok v →
      (v.coerce f.type = v ↔
        (func.isFold = true → f.type = .float64 → ∃ v ∈ part, v.isNull = false)) :=
    fun part hpart v hv => htype ▸ aggregate_declared_iff (aggregands_declared hdecl hpart) hv
  have all : (∀ v ∈ out.values, v.coerce f.type = v) ↔ ∀ part ∈ t.aggregands keys c,
      func.isFold = true → f.type = .float64 → ∃ v ∈ part, v.isNull = false := by
    clear hc
    generalize t.aggregands keys c = parts, out.values = values at hvalues single
    induction hvalues with
    | nil => simp
    | cons hv _ ih =>
      rw [List.forall_mem_cons] at single
      rw [List.forall_mem_cons, List.forall_mem_cons, ih single.2, single.1 _ hv]
  constructor
  · rintro ho hfold hfloat c' hc' part hpart
    obtain rfl := Option.some.inj (hc.symm.trans hc')
    exact all.1 ho.values part hpart hfold hfloat
  · intro hall
    exact ⟨ho.name.trans hname.symm, all.2 fun part hpart hfold hfloat => hall hfold hfloat c hc part hpart⟩

/-- Aggregated columns are as declared if those that are sums or products of floats have a value to
each. -/
theorem aggregates_declared_iff (h : t.IsDeclared s) {out : List Column} {fields : List Field}
    (ho : List.Forall₂ (t.Aggregates func keys) names out)
    (hf : List.Forall₂ (fun n f => Graph.aggregateField s func n = .ok f) names fields) :
    List.Forall₂ Column.IsDeclared out fields ↔ (func.isFold = true → ∀ f ∈ fields,
      f.type = .float64 → ∀ c, t.column? f.name = some c →
        ∀ part ∈ t.aggregands keys c, ∃ v ∈ part, v.isNull = false) := by
  induction ho generalizing fields with
  | nil =>
    cases hf
    simp
  | @cons n d _ _ hd _ ih =>
    obtain ⟨⟩ | ⟨hfield, hf⟩ := hf
    obtain ⟨g, -, hname, -⟩ := aggregateField_spec hfield
    rw [List.forall₂_cons, ih hf, hd.isDeclared_iff h hfield, hname.symm]
    simp only [List.forall_mem_cons]
    exact forall_and.symm

theorem aggregates_names {out : List Column} {fields : List Field}
    (ho : List.Forall₂ (t.Aggregates func keys) names out)
    (hf : List.Forall₂ (fun n f => Graph.aggregateField s func n = .ok f) names fields) :
    List.Forall₂ (fun (c : Column) f => c.name = f.name) out fields := by
  induction ho generalizing fields with
  | nil =>
    cases hf
    exact .nil
  | cons hd _ ih =>
    obtain ⟨⟩ | ⟨hfield, hf⟩ := hf
    obtain ⟨g, -, hname, -⟩ := aggregateField_spec hfield
    exact .cons (hd.name.trans hname.symm) (ih hf)

/-- The fields of the result are found under the names of the columns that are aggregated. -/
theorem sumsSomething_iff (keyFields : List Field) {fields : List Field}
    (hf : List.Forall₂ (fun n f => Graph.aggregateField s func n = .ok f) names fields)
    (hn : (Schema.mk (keyFields ++ fields)).names.Nodup) :
    t.SumsSomething func keys names ⟨keyFields ++ fields⟩ ↔ (func.isFold = true → ∀ f ∈ fields,
      f.type = .float64 → ∀ c, t.column? f.name = some c →
        ∀ part ∈ t.aggregands keys c, ∃ v ∈ part, v.isNull = false) := by
  have left : ∀ n ∈ names, ∃ f ∈ fields, f.name = n := fun n hmem => by
    obtain ⟨i, hi, rfl⟩ := List.getElem_of_mem hmem
    have hi' := hf.length_eq ▸ hi
    obtain ⟨-, -, hname, -⟩ := aggregateField_spec (hf.get hi hi')
    exact ⟨_, List.getElem_mem hi', hname⟩
  have right : ∀ f ∈ fields, f.name ∈ names := fun f hmem => by
    obtain ⟨i, hi, rfl⟩ := List.getElem_of_mem hmem
    have hi' := hf.length_eq ▸ hi
    obtain ⟨-, -, hname, -⟩ := aggregateField_spec (hf.get hi' hi)
    exact hname ▸ List.getElem_mem hi'
  have found : ∀ f ∈ fields, (Schema.mk (keyFields ++ fields)).field? f.name = some f :=
    fun f hmem => Schema.field?_of_mem hn (List.mem_append_right _ hmem)
  refine imp_congr_right fun _ => ⟨fun h f hmem => h _ (right f hmem) f (found f hmem), ?_⟩
  intro h n hmem f hfield
  obtain ⟨g, hg, rfl⟩ := left n hmem
  obtain rfl := Option.some.inj ((found g hg).symm.trans hfield)
  exact h _ hg

/-- The columns of a result, some of which are as declared in any case. -/
theorem keyed_declared_iff {keyColumns out : List Column} {keyFields fields : List Field}
    (hk : List.Forall₂ Column.IsDeclared keyColumns keyFields)
    (ho : List.Forall₂ (fun (c : Column) f => c.name = f.name) out fields)
    (hn : (Table.mk (keyColumns ++ out)).names.Nodup) :
    (Table.mk (keyColumns ++ out)).HasColumns ⟨keyFields ++ fields⟩ ∧
      ((Table.mk (keyColumns ++ out)).coerce ⟨keyFields ++ fields⟩ = ⟨keyColumns ++ out⟩ ↔
        List.Forall₂ Column.IsDeclared out fields) := by
  have hnames : (Table.mk (keyColumns ++ out)).names = (Schema.mk (keyFields ++ fields)).names := by
    rw [names, Schema.names, ← List.forall₂_eq_eq_eq, List.forall₂_map_left_iff,
      List.forall₂_map_right_iff]
    exact List.rel_append (R := fun (c : Column) (f : Field) => c.name = f.name)
      (hk.imp fun c f hc => hc.name) ho
  refine ⟨⟨hnames, hn⟩, (coerce_eq_self_iff ⟨hnames, hn⟩).trans ⟨fun h => ?_, fun h => ?_⟩⟩
  · have hdrop := List.forall₂_drop_append _ _ _ h
    rwa [← hk.length_eq, List.drop_left] at hdrop
  · exact List.rel_append (R := Column.IsDeclared) hk h

/-- The aggregates of a table are one to each column. -/
theorem aggregateTable_spec (hu : t.aggregateTable func names = .ok u) :
    u.Valid ∧ List.Forall₂ (t.Aggregates func []) names u.columns := by
  obtain ⟨out, hout, hu⟩ := bind_eq_ok.1 hu
  obtain ⟨rfl, hvalid⟩ := ofColumns_eq_ok.1 (mapError_eq_ok.1 hu)
  refine ⟨hvalid, (mapM_eq_ok.1 hout).imp fun n d hd => ?_⟩
  obtain ⟨c, hc, hd⟩ := bind_eq_ok.1 hd
  obtain ⟨v, hv, hd⟩ := bind_eq_ok.1 hd
  obtain rfl := Except.ok.inj hd
  exact ⟨rfl, c, need_eq_ok.1 hc, .cons hv .nil⟩

theorem aggregateTable_declared_iff (h : t.IsDeclared s) {fields : List Field}
    (hf : names.mapM (Graph.aggregateField s func) = .ok fields)
    (hu : t.aggregateTable func names = .ok u) : u.HasColumns ⟨fields⟩ ∧
      (u.coerce ⟨fields⟩ = u ↔ t.SumsSomething func [] names ⟨fields⟩) := by
  obtain ⟨⟨-, hnodup⟩, ho⟩ := aggregateTable_spec hu
  have hf := mapM_eq_ok.1 hf
  obtain ⟨hcolumns, hiff⟩ := keyed_declared_iff .nil (aggregates_names ho hf) hnodup
  exact ⟨hcolumns, hiff.trans <| (aggregates_declared_iff h ho hf).trans
    (sumsSomething_iff [] hf (hcolumns.names ▸ hnodup)).symm⟩

/-- The aggregates of a table are one row. -/
theorem values_aggregateTable (hu : t.aggregateTable func names = .ok u) :
    u.Valid ∧ ∀ c ∈ u.columns, ∃ v, c.values = [v] := by
  obtain ⟨hvalid, ho⟩ := aggregateTable_spec hu
  refine ⟨hvalid, fun c hc => ?_⟩
  obtain ⟨n, -, hagg⟩ := exists_of_mem_right ho hc
  obtain ⟨d, -, hvalues⟩ := hagg.values
  exact List.length_eq_one_iff.1 hvalues.length_eq.symm

/-- The key columns of groups take over cells of the table. -/
theorem keyColumns_declared (h : t.IsDeclared s) {keyColumns : List Column} {keyFields : List Field}
    (hk : t.keyColumns keys = .ok keyColumns) (hf : keys.mapM (Graph.keyField s) = .ok keyFields)
    (gs : List (List Nat)) : List.Forall₂ Column.IsDeclared
      ((keys.zip keyColumns).map fun (k, c) =>
        ⟨k, gs.map fun g => c.values.getD (g.headD 0) .null⟩) keyFields :=
  (keyColumns_obey (isDeclared_iff_obeys.1 h) (fun _ _ => t.reads_declared _) hk hf).imp
    fun _ _ => Column.isDeclared_iff_obeys.2

/-- The aggregates of groups stand after the key cells of their first rows. -/
theorem aggregateGroups_spec (hne : keys ≠ []) (hu : t.aggregateGroups keys names func = .ok u) :
    ∃ gs keyColumns out, t.groups keys = .ok gs ∧ t.keyColumns keys = .ok keyColumns ∧
      u = ⟨((keys.zip keyColumns).map fun (k, c) =>
        ⟨k, gs.map fun g => c.values.getD (g.headD 0) .null⟩) ++ out⟩ ∧ u.Valid ∧
      List.Forall₂ (t.Aggregates func keys) names out := by
  rw [aggregateGroups] at hu
  simp only [bind_eq_ok] at hu
  obtain ⟨gs, hgs, keyColumns, hkeys, out, hout, hu⟩ := hu
  obtain ⟨rfl, hvalid⟩ := ofColumns_eq_ok.1 (mapError_eq_ok.1 hu)
  have hgs : t.groups keys = .ok gs := mapError_eq_ok.1 hgs
  refine ⟨gs, keyColumns, out, hgs, mapError_eq_ok.1 hkeys, rfl, hvalid,
    (mapM_eq_ok.1 hout).imp fun n d hd => ?_⟩
  obtain ⟨c, hc, hd⟩ := bind_eq_ok.1 hd
  obtain ⟨values, hvalues, hd⟩ := bind_eq_ok.1 hd
  obtain rfl := Except.ok.inj hd
  refine ⟨rfl, c, need_eq_ok.1 hc, ?_⟩
  rw [aggregands, if_neg (by simp [hne]), hgs, List.forall₂_map_left_iff]
  exact mapM_eq_ok.1 hvalues

theorem aggregateGroups_declared_iff (h : t.IsDeclared s) {keyFields fields : List Field}
    (hne : keys ≠ []) (hk : keys.mapM (Graph.keyField s) = .ok keyFields)
    (hf : names.mapM (Graph.aggregateField s func) = .ok fields)
    (hu : t.aggregateGroups keys names func = .ok u) : u.HasColumns ⟨keyFields ++ fields⟩ ∧
      (u.coerce ⟨keyFields ++ fields⟩ = u ↔
        t.SumsSomething func keys names ⟨keyFields ++ fields⟩) := by
  obtain ⟨gs, keyColumns, out, -, hkeys, rfl, ⟨-, hnodup⟩, ho⟩ := aggregateGroups_spec hne hu
  have hf := mapM_eq_ok.1 hf
  have hk := keyColumns_declared h hkeys hk gs
  obtain ⟨hcolumns, hiff⟩ := keyed_declared_iff hk (aggregates_names ho hf) hnodup
  exact ⟨hcolumns, hiff.trans <| (aggregates_declared_iff h ho hf).trans
    (sumsSomething_iff _ hf (hcolumns.names ▸ hnodup)).symm⟩

end Table
end LazyQuery
