import LazyQuery.Proofs.Table.Conforms
import Mathlib.Data.List.Basic

/-!
# Operations on columns

Choosing, renaming, replacing and stacking columns succeeds on tables that conform to a schema and have
what is asked for. The lemmas say which columns the result has, and that they conform to the fields of
the result's schema.
-/

set_option autoImplicit false

namespace LazyQuery

/-- The schema of a renaming. -/
def Schema.renamed (s : Schema) (mapping : List (String × String)) : Schema :=
  ⟨s.fields.map fun f => { f with name := Table.newName mapping f.name }⟩

namespace Table

variable {t : Table} {s s' : Schema} {f : Field} {k : Nat} {columns : List Column}

/-! ## Choosing and renaming -/

/-- The columns that are chosen, one for each name. -/
theorem select_ok (ht : t.Conforms s) {names : List String} (hp : s.project names = .ok s')
    (hd : s'.Distinct) :
    ∃ columns, t.select names = .ok ⟨columns⟩ ∧
      List.Forall₂ (fun n c => t.column? n = some c) names columns ∧
        List.Forall₂ (Column.Conforms t.rowCount) columns s'.fields := by
  have hfields := Schema.project_eq_ok hp
  obtain ⟨columns, hneed, hcolumns, hconf⟩ : ∃ columns, names.mapM t.need = .ok columns ∧
      List.Forall₂ (fun n c => t.column? n = some c) names columns ∧
        List.Forall₂ (Column.Conforms t.rowCount) columns s'.fields := by
    generalize s'.fields = fields at hfields
    clear hp hd
    induction hfields with
    | nil => exact ⟨[], rfl, .nil, .nil⟩
    | @cons n f names fields hf _ ih =>
      obtain ⟨columns, hneed, hcolumns, hconf⟩ := ih
      obtain ⟨c, hc, hcol, hcf⟩ := ht.need hf
      exact ⟨c :: columns, by rw [List.mapM_cons, hc, hneed]; rfl, .cons hcol hcolumns,
        .cons hcf hconf⟩
  refine ⟨columns, ?_, hcolumns, hconf⟩
  rw [select, hneed, ok_bind]
  exact build_ok hconf hd

/-- The rows of the columns that are chosen. -/
theorem select_rows (ht : t.Conforms s) {names : List String} (hp : s.project names = .ok s')
    (hd : s'.Distinct) : ∃ u, t.select names = .ok u ∧ u.Conforms s' ∧
      u.rows = (List.range t.rowCount).map fun i => names.map (t.cell · i) := by
  obtain ⟨columns, hu, hcolumns, hconf⟩ := select_ok ht hp hd
  refine ⟨_, hu, conforms_of_columns hconf hd.nonempty, ?_⟩
  rw [rows_eq hconf hd.nonempty]
  exact List.map_congr_left fun i _ => cells_of_columns hcolumns i

theorem rename_ok (ht : t.Conforms s) {mapping : List (String × String)}
    (hm : ∀ n ∈ mapping.map (·.1), n ∈ s.names) (hd : (s.renamed mapping).Distinct) :
    t.rename mapping = .ok ⟨t.columns.map fun c => ⟨newName mapping c.name, c.values⟩⟩ ∧
      List.Forall₂ (Column.Conforms t.rowCount)
        (t.columns.map fun c => ⟨newName mapping c.name, c.values⟩) (s.renamed mapping).fields := by
  have hconf : List.Forall₂ (Column.Conforms t.rowCount)
      (t.columns.map fun c => ⟨newName mapping c.name, c.values⟩) (s.renamed mapping).fields := by
    rw [Schema.renamed, List.forall₂_map_left_iff, List.forall₂_map_right_iff]
    exact ht.imp fun c f hc => ⟨by rw [hc.name], hc.isPlain, hc.length, hc.admits⟩
  have hneed : (mapping.forM fun p => do let _ ← t.need p.1 : Except FrameError PUnit) = .ok ⟨⟩ := by
    clear hd hconf
    induction mapping with
    | nil => rfl
    | cons p rest ih =>
      rw [List.map_cons, List.forall_mem_cons] at hm
      obtain ⟨f, hf⟩ := Schema.field?_isSome hm.1
      obtain ⟨c, hc, -⟩ := ht.need hf
      obtain ⟨old, renamed⟩ := p
      rw [List.forM]
      dsimp only
      rw [hc]
      exact ih hm.2
  refine ⟨?_, hconf⟩
  rw [rename]
  change ((mapping.forM fun p => do let _ ← t.need p.1) >>= _) = _
  rw [hneed, ok_bind]
  exact build_ok hconf hd

/-! ## Replacing -/

/-- A thing stands in the place of the one of its name, or at the end. -/
def putNamed {α : Type} (name : α → String) (xs : List α) (x : α) : List α :=
  if name x ∈ xs.map name then xs.map fun y => if name y = name x then x else y else xs ++ [x]

/-- What is made of things of the same names stands in the same places. -/
theorem map_putNamed {α : Type} (name : α → String) (make : α → α) (hname : ∀ y, name (make y) = name y)
    (xs : List α) (x : α) : (putNamed name xs x).map make = putNamed name (xs.map make) (make x) := by
  have hnames : (xs.map make).map name = xs.map name := by
    rw [List.map_map]
    exact List.map_congr_left fun y _ => hname y
  rw [putNamed, putNamed, hnames, hname]
  split
  · rw [List.map_map, List.map_map]
    refine List.map_congr_left fun y _ => ?_
    rw [Function.comp, Function.comp, hname]
    split <;> rfl
  · rw [List.map_append, List.map_singleton]

/-- Of things with distinct names the first of a name is the only one. -/
theorem putNamed_eq {α : Type} {name : α → String} {xs : List α} {x : α}
    (hn : (xs.map name).Nodup) : putNamed name xs x =
      match xs.findIdx? fun y => name y == name x with
      | some i => xs.set i x
      | none => xs ++ [x] := by
  rw [putNamed]
  cases hi : xs.findIdx? fun y => name y == name x with
  | none =>
    rw [List.findIdx?_eq_none_iff] at hi
    refine if_neg fun hmem => ?_
    obtain ⟨y, hy, he⟩ := List.mem_map.1 hmem
    simpa [he] using hi y hy
  | some i =>
    have hmem : name x ∈ xs.map name := by
      obtain ⟨hlt, hx, -⟩ := List.findIdx?_eq_some_iff_getElem.1 hi
      rw [beq_iff_eq] at hx
      exact List.mem_map.2 ⟨xs[i], List.getElem_mem hlt, hx⟩
    rw [if_pos hmem]
    clear hmem
    induction xs generalizing i with
    | nil => cases hi
    | cons y rest ih =>
      rw [List.map_cons, List.nodup_cons] at hn
      rw [List.findIdx?_cons] at hi
      by_cases hy : name y = name x
      · rw [if_pos (by simpa using hy), Option.some.injEq] at hi
        subst hi
        have others : rest.map (fun z => if name z = name x then x else z) = rest := by
          refine (List.map_congr_left fun z hz => ?_).trans (List.map_id rest)
          refine if_neg fun hzx => hn.1 (List.mem_map.2 ⟨z, hz, ?_⟩)
          rw [hzx, hy]
        rw [List.map_cons, if_pos hy, others]
        rfl
      · rw [if_neg (by simpa using hy), Option.map_eq_some_iff] at hi
        obtain ⟨j, hj, rfl⟩ := hi
        rw [List.map_cons, if_neg hy, ih hn.2 j hj]
        rfl

theorem names_putNamed {α : Type} {name : α → String} {xs : List α} {x : α} :
    (putNamed name xs x).map name =
      if name x ∈ xs.map name then xs.map name else xs.map name ++ [name x] := by
  rw [putNamed]
  split
  · rw [List.map_map]
    refine List.map_congr_left fun y _ => ?_
    rw [Function.comp]
    split <;> simp_all
  · simp

theorem nodup_putNamed {α : Type} {name : α → String} {xs : List α} (hn : (xs.map name).Nodup) (x : α) :
    ((putNamed name xs x).map name).Nodup := by
  rw [names_putNamed]
  split
  · exact hn
  · rename_i hnot
    exact List.nodup_append_comm.1 (List.nodup_cons.2 ⟨hnot, hn⟩)

/-- Under distinct names, values are put in the place of the column of their name. -/
theorem assignColumn_eq_put (hn : t.names.Nodup) {name : String} {values : List Scalar} {u : Table}
    (h : t.assignColumn name values = .ok u) : u = ⟨putNamed Column.name t.columns ⟨name, values⟩⟩ := by
  rw [assignColumn] at h
  simp only [throw_eq_error, error_bind, ite_error_eq_ok] at h
  obtain ⟨-, h⟩ := h
  rw [putNamed_eq hn]
  obtain rfl := Except.ok.inj h
  dsimp only
  cases t.columns.findIdx? fun d => d.name == name <;> rfl

theorem put_eq (hn : s.names.Nodup) (f : Field) : s.put f = ⟨putNamed Field.name s.fields f⟩ := by
  rw [putNamed_eq hn, Schema.put, Schema.index?]
  cases s.fields.findIdx? fun g => g.name == f.name <;> rfl

/-- A column of as many values as there are rows can be put into a table. -/
theorem assignColumn_ok (ht : t.Conforms s) (hd : s.Distinct) {c : Column}
    (hc : c.Conforms t.rowCount f) :
    t.assignColumn c.name c.values = .ok ⟨putNamed Column.name t.columns c⟩ ∧
      List.Forall₂ (Column.Conforms t.rowCount) (putNamed Column.name t.columns c)
        (s.put f).fields := by
  have hnames : t.columns.map Column.name = s.fields.map Field.name := ht.names_eq
  constructor
  · rw [assignColumn, if_neg (by simp [hc.length]), putNamed_eq (hnames ▸ hd.nodup)]
    cases t.columns.findIdx? fun d => d.name == c.name <;> rfl
  · rw [put_eq hd.nodup, putNamed, putNamed, hnames, hc.name]
    split
    · rw [List.forall₂_map_left_iff, List.forall₂_map_right_iff]
      refine List.Forall₂.imp (fun d g hg => ?_) ht
      rw [hg.name]
      split
      · exact hc
      · exact hg
    · exact List.rel_append (R := Column.Conforms t.rowCount) ht (.cons hc .nil)

/-! ## Stacking -/

/-- The rows of a table over some of its columns. -/
def rowsOver (t : Table) (names : List String) : List (List Scalar) :=
  (List.range t.rowCount).map fun i => names.map fun n => t.cell n i

/-- One more table is stacked on columns that are there: its cells of their names follow. -/
theorem appendTo_ok {out : List Column} (hout : List.Forall₂ (Column.Conforms k) out s.fields)
    (ht : t.Conforms s') (hs : s.fields ≠ []) (hwidth : s'.fields.length = s.fields.length)
    (hfields : ∀ f ∈ s.fields, ∃ g, s'.field? f.name = some g ∧ g.type = f.type) :
    ∃ out', appendTo out t = .ok out' ∧
      List.Forall₂ (Column.Conforms (k + t.rowCount)) out' s.fields ∧
        (Table.mk out').rows = (Table.mk out).rows ++ t.rowsOver s.names := by
  -- Each column is found in the table, which goes on with cells of the same type.
  obtain ⟨more, hmore, hmap, hout', hlength⟩ : ∃ more,
      List.Forall₂ (fun n c => t.column? n = some c) s.names more ∧
      (out.mapM fun c => do
        let more ← t.need c.name
        pure (Column.mk c.name (c.values ++ more.values)) : Except FrameError (List Column)) =
          .ok (List.zipWith (fun c d => Column.mk c.name (c.values ++ d.values)) out more) ∧
      List.Forall₂ (Column.Conforms (k + t.rowCount))
        (List.zipWith (fun c d => Column.mk c.name (c.values ++ d.values)) out more) s.fields ∧
      more.length = out.length := by
    rw [Schema.names]
    clear hwidth hs
    generalize s.fields = fields at hout hfields
    induction hout with
    | nil => exact ⟨[], .nil, rfl, .nil, rfl⟩
    | @cons c f cs fs hc _ ih =>
      rw [List.forall_mem_cons] at hfields
      obtain ⟨g, hg, htype⟩ := hfields.1
      obtain ⟨d, hneed, hcol, hd⟩ := ht.need hg
      obtain ⟨more, hmore, hmap, hout', hlength⟩ := ih hfields.2
      refine ⟨d :: more, .cons hcol hmore, ?_, .cons ⟨hc.name, hc.isPlain, ?_, fun v hv => ?_⟩ hout', ?_⟩
      · rw [List.mapM_cons, hc.name, hneed, hmap]
        rw [List.zipWith_cons_cons, hc.name]
        rfl
      · rw [List.length_append, hc.length, hd.length]
      · rcases List.mem_append.1 hv with hv | hv
        · exact hc.admits v hv
        · exact htype ▸ hd.admits v hv
      · rw [List.length_cons, List.length_cons, hlength]
  have column {j : Nat} (hj : j < out.length) : out[j].values.length = k :=
    (hout.get hj (hout.length_eq ▸ hj)).length
  refine ⟨_, ?_, hout', ?_⟩
  · rw [appendTo, if_neg (by rw [ht.length_eq, hout.length_eq, hwidth]; simp)]
    exact hmap
  · rw [rows_eq hout' hs, rows_eq hout hs, List.range_add, List.map_append, List.map_map, rowsOver]
    congr 1
    · refine List.map_congr_left fun i hi => List.ext_getElem (by simp [hlength]) fun j hj _ => ?_
      have hj : j < out.length := by simpa [hlength] using hj
      have hi : i < out[j].values.length := column hj ▸ List.mem_range.1 hi
      simp [List.getElem?_append_left hi]
    · refine List.map_congr_left fun i hi => ?_
      rw [← cells_of_columns hmore]
      refine List.ext_getElem (by simp [hlength]) fun j hj _ => ?_
      have hj : j < out.length := by simpa [hlength] using hj
      simp [List.getElem?_append_right, column hj]

/-- Tables with columns of the same types are stacked. The rows are those of one table after the other,
each in the order of the result. -/
theorem concat_ok (tables : List Table) (hd : s.Distinct)
    (hplain : ∀ f ∈ s.fields, f.type.isPlain = true)
    (ht : ∀ t ∈ tables, ∃ s', t.Conforms s' ∧ s'.fields.length = s.fields.length ∧
      ∀ f ∈ s.fields, ∃ g, s'.field? f.name = some g ∧ g.type = f.type) :
    ∃ columns k, concat tables s.names = .ok ⟨columns⟩ ∧
      List.Forall₂ (Column.Conforms k) columns s.fields ∧
        (Table.mk columns).rows = tables.flatMap (rowsOver · s.names) := by
  have stacked : ∀ (out : List Column) (k₀ : Nat), List.Forall₂ (Column.Conforms k₀) out s.fields →
      ∃ columns k, tables.foldlM appendTo out = .ok columns ∧
        List.Forall₂ (Column.Conforms k) columns s.fields ∧
          (Table.mk columns).rows = (Table.mk out).rows ++ tables.flatMap (rowsOver · s.names) := by
    induction tables with
    | nil => exact fun out k₀ hout => ⟨out, k₀, rfl, hout, by simp⟩
    | cons t rest ih =>
      intro out k₀ hout
      rw [List.forall_mem_cons] at ht
      obtain ⟨s', ht', hwidth, hfields⟩ := ht.1
      obtain ⟨out', happ, hout', hrows⟩ := appendTo_ok hout ht' hd.nonempty hwidth hfields
      obtain ⟨columns, k, hfold, hconf, hrows'⟩ := ih ht.2 out' _ hout'
      refine ⟨columns, k, ?_, hconf, ?_⟩
      · rw [List.foldlM_cons, happ]
        exact hfold
      · rw [hrows', hrows, List.flatMap_cons, List.append_assoc]
  have start : List.Forall₂ (Column.Conforms 0) (s.names.map fun n => ⟨n, []⟩) s.fields := by
    rw [Schema.names, List.map_map, List.forall₂_map_left_iff]
    exact List.forall₂_same.2 fun f hf => ⟨rfl, hplain f hf, rfl, by simp⟩
  obtain ⟨columns, k, hfold, hconf, hrows⟩ := stacked _ 0 start
  refine ⟨columns, k, ?_, hconf, ?_⟩
  · rw [concat, hfold, ok_bind]
    exact build_ok hconf hd
  · rw [hrows, rows_eq start hd.nonempty]
    rfl

end Table
end LazyQuery
