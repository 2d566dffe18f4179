import LazyQuery.Proofs.Graph.Construction
import LazyQuery.Proofs.Table.Layout

/-!
# Columns of nodes

What the schema of an operation is called column by column, given those of the nodes that it works on:
a projection has the names that were chosen, a union those of its first input. The lemmas say so of the
functions that `Op.HasSchema` names; for the layout of a join it is `JoinLayout.names_of_make`.
-/

set_option autoImplicit false

namespace LazyQuery

/-! ## Schemas -/

namespace Schema

variable {s s' : Schema} {names : List String}

theorem mem_names_of_project (h : s.project names = .ok s') : ∀ n ∈ names, n ∈ s.names := by
  rw [project, bind_eq_ok] at h
  obtain ⟨⟨⟩, hreq, -⟩ := h
  exact require_eq_ok.1 hreq

theorem names_renamed (s : Schema) (mapping : List (String × String)) :
    (s.renamed mapping).names = s.names.map (Table.newName mapping) := by
  rw [names, names, renamed, List.map_map, List.map_map]
  rfl

/-- Where a field is put into the place of another, that has its name. -/
theorem names_put (s : Schema) (f : Field) :
    (s.put f).names = if f.name ∈ s.names then s.names else s.names ++ [f.name] := by
  rw [put, index?]
  cases hi : s.fields.findIdx? fun g => g.name == f.name with
  | none =>
    rw [List.findIdx?_eq_none_iff] at hi
    have hmem : f.name ∉ s.names := by
      intro hmem
      obtain ⟨g, hg, he⟩ := List.mem_map.1 hmem
      simpa [he] using hi g hg
    rw [if_neg hmem, names, names, List.map_append]
    rfl
  | some i =>
    obtain ⟨hlt, hf, -⟩ := List.findIdx?_eq_some_iff_getElem.1 hi
    rw [beq_iff_eq] at hf
    have hmem : f.name ∈ s.names := List.mem_map.2 ⟨s.fields[i], List.getElem_mem hlt, hf⟩
    rw [if_pos hmem]
    change (s.fields.set i f).map (·.name) = s.fields.map (·.name)
    rw [List.map_set]
    refine List.ext_getElem (by simp) fun j _ _ => ?_
    by_cases hj : i = j
    · subst hj
      simp [hf]
    · simp [List.getElem_set_ne hj]

theorem name_widen (t : Schema) (f : Field) : (t.widen f).name = f.name := by
  rw [widen]
  split <;> rfl

/-- The schema allows nulls wherever the other one does. -/
def AllowsNullsOf (s s' : Schema) : Prop :=
  ∀ f ∈ s.fields, ∀ g, s'.field? f.name = some g → g.nullable = true → f.nullable = true

theorem AllowsNullsOf.refl (hs : s.names.Nodup) : s.AllowsNullsOf s := by
  intro f hf g hg hnull
  rw [field?_of_mem hs hf] at hg
  exact Option.some.inj hg ▸ hnull

theorem AllowsNullsOf.trans {s'' : Schema} (h : s.AllowsNullsOf s') (h' : s'.AllowsNullsOf s'')
    (hnames : ∀ n ∈ s.names, n ∈ s'.names) : s.AllowsNullsOf s'' := by
  intro f hf g hg hnull
  obtain ⟨e, he⟩ := field?_isSome (hnames f.name (List.mem_map_of_mem hf))
  have hname := field?_name he
  exact h f hf e he (h' e (mem_of_field? he) g (hname ▸ hg) hnull)

/-- A field that is widened allows the nulls of both schemas. -/
theorem allowsNullsOf_widen (hs : s.names.Nodup) (t : Schema) :
    AllowsNullsOf ⟨s.fields.map t.widen⟩ s ∧ AllowsNullsOf ⟨s.fields.map t.widen⟩ t := by
  constructor <;> intro _ hmem g hg hnull <;> obtain ⟨f, hf, rfl⟩ := List.mem_map.1 hmem <;>
    rw [name_widen] at hg
  · rw [field?_of_mem hs hf] at hg
    obtain rfl := Option.some.inj hg
    rw [widen]
    split
    · simp [hnull]
    · exact hnull
  · rw [widen, hg]
    simp [hnull]

end Schema

/-! ## Constructors -/

namespace Graph

variable {g : Graph} {s s' : Schema} {names : List String} {fields : List Field}

/-- A union has the columns of its first input. -/
theorem names_of_widenBy {ids : List NodeId} (h : ids.foldlM g.widenBy s = .ok s') :
    s'.names = s.names := by
  induction ids generalizing s with
  | nil =>
    cases h
    rfl
  | cons i rest ih =>
    rw [List.foldlM_cons, bind_eq_ok] at h
    obtain ⟨u, hu, h⟩ := h
    simp only [widenBy, refuse_eq_error, error_bind, ite_error_eq_ok, bind_eq_ok] at hu
    obtain ⟨m, -, -, hu⟩ := hu
    cases hu
    rw [ih h, Schema.names, Schema.names, List.map_map]
    exact List.map_congr_left fun f _ => Schema.name_widen _ f

/-- Each further input of a union has all its columns. -/
theorem mem_names_of_widenBy {ids : List NodeId} (h : ids.foldlM g.widenBy s = .ok s') :
    ∀ i ∈ ids, ∀ m, g.node? i = some m → ∀ c ∈ s'.names, c ∈ m.columns := by
  induction ids generalizing s with
  | nil => simp
  | cons i rest ih =>
    have hnames := names_of_widenBy h
    rw [List.foldlM_cons, bind_eq_ok] at h
    obtain ⟨u, hu, h⟩ := h
    refine List.forall_mem_cons.2 ⟨fun m hm c hc => ?_, ih h⟩
    simp only [widenBy, refuse_eq_error, error_bind, ite_error_eq_ok, bind_eq_ok] at hu
    obtain ⟨m', hm', hsame, -⟩ := hu
    obtain rfl := Option.some.inj ((table_eq_ok hm').1.symm.trans hm)
    simp only [Schema.sameColumns, Bool.not_eq_true', Bool.not_eq_false, Bool.and_eq_true,
      List.all_eq_true, Schema.contains_iff] at hsame
    rw [hnames] at hc
    obtain ⟨f, hf, rfl⟩ := List.mem_map.1 hc
    exact hsame.2 f hf

/-- A union allows the nulls of all its inputs. -/
theorem allowsNullsOf_widenBy {ids : List NodeId} (hs : s.names.Nodup)
    (h : ids.foldlM g.widenBy s = .ok s') : s'.AllowsNullsOf s ∧
      ∀ i ∈ ids, ∀ m, g.node? i = some m → s'.AllowsNullsOf m.schema := by
  induction ids generalizing s with
  | nil =>
    cases h
    exact ⟨.refl hs, by simp⟩
  | cons i rest ih =>
    rw [List.foldlM_cons, bind_eq_ok] at h
    obtain ⟨u, hu, h⟩ := h
    have hu' : [i].foldlM g.widenBy s = .ok u := bind_eq_ok.2 ⟨u, hu, rfl⟩
    have hnames := names_of_widenBy hu'
    obtain ⟨hallows, hrest⟩ := ih (hnames ▸ hs) h
    have below : ∀ n ∈ s'.names, n ∈ u.names := fun n hn => names_of_widenBy h ▸ hn
    simp only [widenBy, refuse_eq_error, error_bind, ite_error_eq_ok, bind_eq_ok] at hu
    obtain ⟨m, hm, -, hu⟩ := hu
    obtain rfl := Except.ok.inj hu
    obtain ⟨hfirst, hother⟩ := Schema.allowsNullsOf_widen hs m.schema
    refine ⟨hallows.trans hfirst below, List.forall_mem_cons.2 ⟨fun m' hm' => ?_, hrest⟩⟩
    obtain rfl := Option.some.inj ((table_eq_ok hm).1.symm.trans hm')
    exact hallows.trans hother below

/-- The keys of a grouping are columns of its table, and keep their names. -/
theorem names_of_keyField (h : names.mapM (keyField s) = .ok fields) :
    fields.map (·.name) = names ∧ ∀ n ∈ names, n ∈ s.names := by
  replace h := mapM_eq_ok.1 h
  induction h with
  | nil => exact ⟨rfl, by simp⟩
  | @cons n f names fields hf _ ih =>
    rw [keyField] at hf
    split at hf
    · cases hf
      rename_i hfield
      have hn := Schema.field?_name hfield
      refine ⟨by rw [List.map_cons, ih.1, hn], List.forall_mem_cons.2 ⟨?_, ih.2⟩⟩
      exact hn ▸ List.mem_map_of_mem (Schema.mem_of_field? hfield)
    · cases hf

/-- Aggregated columns are columns of the table, and keep their names. -/
theorem names_of_aggregateField {func : AggFunc}
    (h : names.mapM (aggregateField s func) = .ok fields) :
    fields.map (·.name) = names ∧ ∀ n ∈ names, n ∈ s.names := by
  replace h := mapM_eq_ok.1 h
  induction h with
  | nil => exact ⟨rfl, by simp⟩
  | @cons n f names fields hf _ ih =>
    rw [aggregateField] at hf
    split at hf
    · cases hf
    · rename_i hfield
      split at hf
      · cases hf
      · cases hf
        refine ⟨by rw [List.map_cons, ih.1], List.forall_mem_cons.2 ⟨?_, ih.2⟩⟩
        exact Schema.field?_name hfield ▸ List.mem_map_of_mem (Schema.mem_of_field? hfield)

end Graph
end LazyQuery
