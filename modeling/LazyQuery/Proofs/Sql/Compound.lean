import LazyQuery.Proofs.Sql.Operations

/-!
# Compounds and unions

A compound of queries with columns of the same types yields the rows of its parts, one part after the
other, under headings that fit as well (`evalCompound?_of_parts`). For a compound of one query that is
the result of the query; for the union of relations that hold tables it holds the tables stacked.
-/

set_option autoImplicit false

namespace LazyQuery

open Sql

namespace Sql

variable {catalog : Catalog} {asked : Bool} {fields : List Field}

/-- Deliveries of all rows are appended. -/
theorem foldl_append_ofRows {parts : List Relation} {rowsOf : Relation → List (List Datum)}
    (h : ∀ r ∈ parts, r.toDelivery = .ofRows (rowsOf r)) (rows : List (List Datum)) :
    parts.foldl (fun (d : Delivery (List Datum)) r => d.append r.toDelivery) (.ofRows rows) =
      .ofRows (rows ++ parts.flatMap rowsOf) := by
  induction parts generalizing rows with
  | nil => simp
  | cons r rest ih =>
    rw [List.forall_mem_cons] at h
    rw [List.foldl_cons, h.1, show (Delivery.ofRows rows).append (.ofRows (rowsOf r)) =
      .ofRows (rows ++ rowsOf r) from rfl, ih h.2, List.flatMap_cons, List.append_assoc]

/-- **A compound yields the rows of its parts**, if their columns fit the same fields. -/
theorem evalCompound?_of_parts {c : Compound} {parts : List Relation} (hc : c ≠ [])
    (h : List.Forall₂ (fun (s : Select) r => s.eval? catalog asked = some r) c parts)
    (hf : ∀ r ∈ parts, List.Forall₂ Heading.Fits r.columns fields) :
    ∃ r, evalCompound? catalog asked c = some r ∧ List.Forall₂ Heading.Fits r.columns fields ∧
      r.numbers? = none ∧ ∀ rowsOf : Relation → List (List Datum),
        (∀ r ∈ parts, r.toDelivery = .ofRows (rowsOf r)) → r.toDelivery = .ofRows (parts.flatMap rowsOf) := by
  cases h with
  | nil => exact absurd rfl hc
  | @cons sel first rest parts hsel hrest =>
    have hlen : (parts.all fun r => r.columns.length == first.columns.length) = true := by
      rw [List.all_eq_true]
      intro r hr
      have hfirst := (hf first (by simp)).length_eq
      simp [(hf r (by simp [hr])).length_eq, hfirst]
    rw [evalCompound?, mapM_eq_some_of_forall₂ (.cons hsel hrest)]
    change ∃ r, (if parts.all _ then some _ else none) = some r ∧ _
    rw [hlen, if_pos rfl]
    refine ⟨_, rfl, ?_, rfl, fun rowsOf hrows => ?_⟩
    · have hfirst := hf first (by simp)
      rw [List.forall₂_map_left_iff, List.forall₂_iff_get]
      refine ⟨by simp [hfirst.length_eq], fun i hi hi' => ?_⟩
      have hi : i < first.columns.length := by simpa using hi
      have hfits : ∀ r ∈ first :: parts, ∀ h, r.columns[i]? = some h → h.Fits fields[i] := by
        intro r hr h hh
        obtain ⟨hlt, rfl⟩ := List.getElem?_eq_some_iff.1 hh
        exact (hf r hr).get hlt hi'
      simp only [List.get_eq_getElem, List.getElem_zipIdx, Nat.zero_add]
      refine ⟨(hfits first (by simp) _ (List.getElem?_eq_getElem hi)).name, ?_, ?_⟩
      · refine Affinity.suits_ofParts fun a ha => ?_
        obtain ⟨h, hh, rfl⟩ := List.mem_map.1 ha
        obtain ⟨r, hr, hh⟩ := List.mem_filterMap.1 hh
        exact (hfits r hr h hh).suits
      · rw [List.any_eq_false]
        intro h hh
        obtain ⟨r, hr, hh⟩ := List.mem_filterMap.1 hh
        simp [(hfits r hr h hh).computed]
    · rw [List.forall_mem_cons] at hrows
      dsimp only
      rw [hrows.1, foldl_append_ofRows hrows.2, List.flatMap_cons]

theorem holds_single {sel : Select} {t : Table} {s : Schema}
    (h : ∃ r, sel.eval? catalog asked = some r ∧ r.Holds t s) :
    ∃ r', evalCompound? catalog asked [sel] = some r' ∧ r'.Holds t s := by
  obtain ⟨r, hr, hh⟩ := h
  obtain ⟨r', hr', hfits, hn, hrows⟩ := evalCompound?_of_parts (by simp) (.cons hr .nil)
    (by simpa using hh.headings)
  refine ⟨r', hr', hfits, ?_, fun ns hns => ?_⟩
  · rw [hrows (fun _ => (List.range t.rowCount).map (storedRow t)) (by simpa using hh.rows)]
    simp
  · rw [hn] at hns
    cases hns

/-! ## Unions -/

/-- A table with the columns of a schema, in any order, as they are stacked. -/
def StacksOn (s s' : Schema) : Prop :=
  s'.fields.length = s.fields.length ∧ ∀ f ∈ s.fields, ∃ g, s'.field? f.name = some g ∧ g.type = f.type

variable {s s' : Schema} {table : String} {r : Relation} {t : Table}

theorem StacksOn.over (h : StacksOn s s') :
    (Select.ofInput (Graph.columnItems table s.names) (.table table)).Over table s' s.fields := by
  refine .ofInput ?_
  rw [Graph.columnItems, Schema.names, List.map_map, List.forall₂_map_left_iff]
  refine List.forall₂_same.2 fun f hf => ?_
  obtain ⟨g, hg, htype⟩ := h.2 f hf
  have hcolumn := Item.Fits.column table hg
  exact ⟨htype ▸ hcolumn.hasType, fun hs => (hcolumn.name hs).trans (Schema.field?_name hg)⟩

/-- A part of a union yields the cells of its table in the columns of the union. -/
theorem StacksOn.part (asked : Bool) (h : StacksOn s s') (hs : s'.Apart) (hc : catalog table = some r)
    (hr : r.Holds t s') (ht : t.Conforms s') :
    ∃ r', (Select.ofInput (Graph.columnItems table s.names) (.table table)).eval? catalog asked = some r' ∧
      List.Forall₂ Heading.Fits r'.columns s.fields ∧
        r'.toDelivery = .ofRows ((t.rowsOver s.names).map (·.map Datum.ofScalar)) := by
  obtain ⟨r', scope, rowAt, hr', hh, -, hrows, hshows, hrow⟩ := h.over.eval?_rows asked hs hc hr ht
  refine ⟨r', hr', hh, ?_⟩
  have hnames : ∀ n ∈ s.names, ∃ f, s'.field? n = some f := by
    intro n hn
    obtain ⟨f, hf, rfl⟩ := List.mem_map.1 hn
    obtain ⟨g, hg, -⟩ := h.2 f hf
    exact ⟨g, hg⟩
  rw [hrows, Select.plainRows_simple rfl rfl rfl fun i hi =>
    yields_columnItems ht hnames rfl scope _ i hi hshows (hrow i)]
  rfl

/-- **The query of a union holds the tables stacked.** -/
theorem union_holds (asked : Bool) (inputs : List (String × Schema × Table)) (hne : inputs ≠ [])
    (hd : s.Distinct) (hplain : ∀ f ∈ s.fields, f.type.isPlain = true)
    (h : ∀ p ∈ inputs, StacksOn s p.2.1 ∧ p.2.1.Apart ∧ p.2.2.Conforms p.2.1 ∧
      ∃ r, catalog p.1 = some r ∧ r.Holds p.2.2 p.2.1) :
    ∃ u r', Table.concat (inputs.map fun p => p.2.2) s.names = .ok u ∧ u.Conforms s ∧
      evalCompound? catalog asked (inputs.map fun p =>
        Select.ofInput (Graph.columnItems p.1 s.names) (.table p.1)) = some r' ∧ r'.Holds u s := by
  obtain ⟨columns, k, hconcat, hconf, hrows⟩ := Table.concat_ok (inputs.map fun p => p.2.2) hd
    hplain fun t ht => by
      obtain ⟨p, hp, rfl⟩ := List.mem_map.1 ht
      exact ⟨p.2.1, (h p hp).2.2.1, (h p hp).1⟩
  obtain ⟨parts, hparts, hrowsOf⟩ : ∃ parts : List Relation,
      List.Forall₂ (fun (sel : Select) r => sel.eval? catalog asked = some r)
        (inputs.map fun p => Select.ofInput (Graph.columnItems p.1 s.names) (.table p.1)) parts ∧
      List.Forall₂ (fun p (r : Relation) => List.Forall₂ Heading.Fits r.columns s.fields ∧
        r.toDelivery = .ofRows ((Table.rowsOver p.2.2 s.names).map (·.map Datum.ofScalar)))
          inputs parts := by
    clear hconcat hrows hne
    induction inputs with
    | nil => exact ⟨[], .nil, .nil⟩
    | cons p rest ih =>
      rw [List.forall_mem_cons] at h
      obtain ⟨⟨hstack, hapart, hconf, r, hr, hholds⟩, hrest⟩ := h
      obtain ⟨parts, hparts, hrowsOf⟩ := ih hrest
      obtain ⟨r', hr', hh, hrows⟩ := hstack.part asked hapart hr hholds hconf
      exact ⟨r' :: parts, .cons hr' hparts, .cons ⟨hh, hrows⟩ hrowsOf⟩
  have hfits : ∀ r ∈ parts, List.Forall₂ Heading.Fits r.columns s.fields ∧
      r.toDelivery = .ofRows r.rows := by
    intro r hr
    obtain ⟨i, hi, rfl⟩ := List.getElem_of_mem hr
    obtain ⟨hh, hrows⟩ := hrowsOf.get (hrowsOf.length_eq ▸ hi) hi
    exact ⟨hh, hrows ▸ rfl⟩
  obtain ⟨r', hr', hh, hn, hall⟩ := evalCompound?_of_parts (by simpa using hne) hparts
    fun r hr => (hfits r hr).1
  refine ⟨_, r', hconcat, Table.conforms_of_columns hconf hd.nonempty, hr', .of_rows hh hn ?_⟩
  rw [hall (·.rows) fun r hr => (hfits r hr).2, hrows, List.map_flatMap, List.flatMap_map]
  refine congrArg Delivery.ofRows ?_
  clear hall hr' hparts hfits hconcat hrows h hne
  induction hrowsOf with
  | nil => rfl
  | cons hp _ ih =>
    rw [List.flatMap_cons, List.flatMap_cons, ih, hp.2]
    rfl

end Sql
end LazyQuery
