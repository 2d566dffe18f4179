import LazyQuery.Proofs.Scalar.Declared
import LazyQuery.Proofs.Table.Cells
import Mathlib.Data.List.Perm.Subperm

/-!
# Tables as a schema declares them

A table is *as declared* by a schema if its columns are those of the schema and no cell changes when the
columns are given the types of the schema (`Table.IsDeclared`). Cells of any kind are allowed, also
floats and blobs, and a column need not hold values of its type: a text in a column of numbers stays.

* `Table.isDeclared_iff` says this in terms of `Table.coerce`.
* It is a law for cells (`CellLaw.declared`) that lets null stand anywhere. So operations that choose rows
  or columns yield tables that are as declared from such tables.
* `Table.concat_declared_iff` is about tables that are stacked under a schema which is not theirs.
-/

set_option autoImplicit false

namespace LazyQuery

theorem map_eq_self_iff {α : Type} {f : α → α} {xs : List α} :
    xs.map f = xs ↔ ∀ x ∈ xs, f x = x := by
  simpa using List.map_inj_left (l := xs) (f := f) (g := id)

/-- The cells that the type of their column does not change. -/
def CellLaw.declared : CellLaw := fun type _ v => v.coerce type = v

theorem CellLaw.declared_null (type : DataType) (nullable : Bool) :
    CellLaw.declared type nullable .null := Scalar.coerce_null type

/-- A column under the name of a field whose type changes none of its cells. -/
structure Column.IsDeclared (c : Column) (f : Field) : Prop where
  name : c.name = f.name
  values : ∀ v ∈ c.values, v.coerce f.type = v

theorem Column.isDeclared_iff_obeys {c : Column} {f : Field} :
    c.IsDeclared f ↔ c.Obeys .declared f :=
  ⟨fun h => ⟨h.name, h.values⟩, fun h => ⟨h.name, h.cells⟩⟩

theorem Column.IsDeclared.getD {c : Column} {f : Field} (h : c.IsDeclared f) (i : Nat) :
    (c.values.getD i .null).coerce f.type = c.values.getD i .null :=
  (Column.isDeclared_iff_obeys.1 h).getD CellLaw.declared_null i

namespace Table

variable {t u : Table} {s s' : Schema} {f : Field} {c : Column} {columns : List Column}

/-- The columns of the table are those of the schema, in order and under distinct names. -/
structure HasColumns (t : Table) (s : Schema) : Prop where
  names : t.names = s.names
  nodup : t.names.Nodup

/-- The columns of the table are those of the schema, and their types change no cell. -/
structure IsDeclared (t : Table) (s : Schema) : Prop extends t.HasColumns s where
  coerce : t.coerce s = t

/-! ## Columns that are declared -/

/-- No cell of a table changes if none of its columns does, each being found under its name. -/
theorem coerce_eq_self_iff (h : t.HasColumns s) :
    t.coerce s = t ↔ List.Forall₂ Column.IsDeclared t.columns s.fields := by
  obtain ⟨hnames, hnodup⟩ := h
  rw [hnames] at hnodup
  have found : ∀ f ∈ s.fields, s.field? f.name = some f := fun f hf =>
    Schema.field?_of_mem hnodup hf
  clear hnodup
  obtain ⟨columns⟩ := t
  rw [Table.coerce, Table.mk.injEq]
  rw [Table.names, Schema.names] at hnames
  dsimp only at hnames ⊢
  generalize s.fields = fields at hnames found
  induction columns generalizing fields with
  | nil =>
    obtain rfl := List.map_eq_nil_iff.1 hnames.symm
    simp
  | cons c rest ih =>
    obtain ⟨f, fields, rfl, hname, hnames⟩ := List.map_eq_cons_iff.1 hnames.symm
    rw [List.forall_mem_cons] at found
    rw [List.map_cons, List.cons.injEq, List.forall₂_cons]
    refine and_congr ?_ (ih fields hnames.symm found.2)
    have hname : c.name = f.name := hname.symm
    rw [hname, found.1]
    obtain ⟨name, values⟩ := c
    subst hname
    rw [Column.mk.injEq, map_eq_self_iff]
    exact ⟨fun h => ⟨rfl, h.2⟩, fun h => ⟨rfl, h.values⟩⟩

theorem isDeclared_iff : t.IsDeclared s ↔
    s.names.Nodup ∧ List.Forall₂ Column.IsDeclared t.columns s.fields := by
  constructor
  · intro h
    exact ⟨h.names ▸ h.nodup, (coerce_eq_self_iff h.toHasColumns).1 h.coerce⟩
  · rintro ⟨hnodup, h⟩
    have hnames : t.names = s.names := names_eq_of_forall₂ (fun _ _ hc => hc.name) h
    exact ⟨⟨hnames, hnames ▸ hnodup⟩, (coerce_eq_self_iff ⟨hnames, hnames ▸ hnodup⟩).2 h⟩

theorem IsDeclared.forall₂ (h : t.IsDeclared s) :
    List.Forall₂ Column.IsDeclared t.columns s.fields := (isDeclared_iff.1 h).2

theorem isDeclared_iff_obeys : t.IsDeclared s ↔ t.Obeys .declared s := by
  refine isDeclared_iff.trans ⟨fun h => ⟨h.1, h.2.imp ?_⟩, fun h => ⟨h.nodup, h.columns.imp ?_⟩⟩
  · exact fun c f => Column.isDeclared_iff_obeys.1
  · exact fun c f => Column.isDeclared_iff_obeys.2

/-- A column of a table is that of the field of its name. -/
theorem IsDeclared.column? (h : t.IsDeclared s) {name : String} (hc : t.column? name = some c) :
    ∃ f, s.field? name = some f ∧ c.IsDeclared f := by
  obtain ⟨f, hf, hobeys⟩ := (isDeclared_iff_obeys.1 h).column? hc
  exact ⟨f, hf, Column.isDeclared_iff_obeys.2 hobeys⟩

/-- Columns that are as declared, and under distinct names, make a table that is. -/
theorem isDeclared_of_columns (h : List.Forall₂ Column.IsDeclared columns s.fields)
    (hn : (Table.mk columns).names.Nodup) : (Table.mk columns).IsDeclared s :=
  isDeclared_iff_obeys.2 (obeys_of_columns (h.imp fun _ _ => Column.isDeclared_iff_obeys.1) hn)

theorem reads_declared (t : Table) (i : Nat) : t.Reads .declared i :=
  reads_of_null CellLaw.declared_null t i

/-! ## Rows and columns that are chosen -/

theorem IsDeclared.take (h : t.IsDeclared s) (indices : List Nat) :
    (t.take indices).IsDeclared s :=
  isDeclared_iff_obeys.2 ((isDeclared_iff_obeys.1 h).take fun i _ => t.reads_declared i)

theorem IsDeclared.dropDuplicates (h : t.IsDeclared s) (hu : t.dropDuplicates = .ok u) :
    u.IsDeclared s :=
  isDeclared_iff_obeys.2 ((isDeclared_iff_obeys.1 h).dropDuplicates (fun i _ => t.reads_declared i) hu)

theorem IsDeclared.filter (h : t.IsDeclared s) {mask : List Scalar}
    (hu : t.filter mask = .ok u) : u.IsDeclared s :=
  isDeclared_iff_obeys.2 ((isDeclared_iff_obeys.1 h).filter (fun i _ => t.reads_declared i) hu)

theorem IsDeclared.sortValues (h : t.IsDeclared s) {keys : List (String × Bool)}
    (hu : t.sortValues keys = .ok u) : u.IsDeclared s :=
  isDeclared_iff_obeys.2 ((isDeclared_iff_obeys.1 h).sortValues (fun i _ => t.reads_declared i) hu)

theorem IsDeclared.select (h : t.IsDeclared s) {names : List String}
    (hp : s.project names = .ok s') (hu : t.select names = .ok u) : u.IsDeclared s' :=
  isDeclared_iff_obeys.2 ((isDeclared_iff_obeys.1 h).select hp hu)

theorem IsDeclared.rename (h : t.IsDeclared s) {mapping : List (String × String)}
    (hu : t.rename mapping = .ok u) : u.IsDeclared (s.renamed mapping) :=
  isDeclared_iff_obeys.2 ((isDeclared_iff_obeys.1 h).rename hu)

theorem IsDeclared.assignColumn (h : t.IsDeclared s) {name : String} {values : List Scalar}
    (hv : ∀ v ∈ values, v.coerce f.type = v) (hu : t.assignColumn name values = .ok u) :
    u.IsDeclared (s.put { f with name := name }) :=
  isDeclared_iff_obeys.2 ((isDeclared_iff_obeys.1 h).assignColumn hv hu)

theorem IsDeclared.join {l r : Table} (hl : l.IsDeclared s) (hr : r.IsDeclared s')
    {leftOn rightOn : List String} {how : JoinType} {layout : JoinLayout}
    (hmake : JoinLayout.make s s' leftOn rightOn (how == .left) = .ok layout)
    (hu : l.join r leftOn rightOn how layout = .ok u) : u.IsDeclared layout.schema :=
  isDeclared_iff_obeys.2 (Obeys.join ⟨id, fun _ => Scalar.coerce_null _⟩ (isDeclared_iff_obeys.1 hl)
    (isDeclared_iff_obeys.1 hr) (fun i _ => l.reads_declared i) (fun i _ => r.reads_declared i) hmake hu)

/-! ## Tables that are stacked -/

/-- A table is left as it is if no column that the schema names has a cell that its type changes. -/
theorem coerce_eq_self_iff_mem : t.coerce s = t ↔
    ∀ c ∈ t.columns, ∀ f, s.field? c.name = some f → ∀ v ∈ c.values, v.coerce f.type = v := by
  obtain ⟨columns⟩ := t
  rw [Table.coerce, Table.mk.injEq, map_eq_self_iff]
  refine forall₂_congr fun c _ => ?_
  obtain ⟨name, values⟩ := c
  dsimp only
  cases s.field? name with
  | none => simp
  | some f => simp [map_eq_self_iff]

/-- A table whose columns are all continued has no others. -/
theorem exists_continued {out : List Column} (hlen : t.columns.length = out.length)
    (hn : (Table.mk out).names.Nodup) (hout : ∀ c ∈ out, ∃ more, t.column? c.name = some more)
    (hc : c ∈ t.columns) : ∃ d ∈ out, d.name = c.name := by
  have hsub : (Table.mk out).names ⊆ t.names := by
    intro n hmem
    obtain ⟨d, hd, rfl⟩ := List.mem_map.1 hmem
    obtain ⟨more, hmore⟩ := hout d hd
    exact List.mem_map.2 ⟨more, List.mem_of_find?_eq_some hmore, name_of_column? hmore⟩
  have hperm := (hn.subperm hsub).perm_of_length_le (by simp [names, hlen])
  exact List.mem_map.1 (hperm.mem_iff.2 (List.mem_map_of_mem hc))

/-- The type of a column changes no cell of it if it changes none of those that were there and none of
those that the column goes on with. -/
theorem appendTo_declared_iff {out out' : List Column} (h : appendTo out t = .ok out')
    (ht : t.names.Nodup) (hn : (Table.mk out).names.Nodup) :
    (Table.mk out').coerce s = ⟨out'⟩ ↔ (Table.mk out).coerce s = ⟨out⟩ ∧ t.coerce s = t := by
  obtain ⟨hlen, hspec⟩ := appendTo_spec h
  have left : ∀ c ∈ out, ∃ c' ∈ out', ∃ more, t.column? c.name = some more ∧
      c' = ⟨c.name, c.values ++ more.values⟩ := fun _ => exists_of_mem_left hspec
  have right : ∀ c' ∈ out', ∃ c ∈ out, ∃ more, t.column? c.name = some more ∧
      c' = ⟨c.name, c.values ++ more.values⟩ := fun _ => exists_of_mem_right hspec
  simp only [coerce_eq_self_iff_mem]
  constructor
  · refine fun hall => ⟨fun c hc f hf v hv => ?_, fun c hc f hf v hv => ?_⟩
    · obtain ⟨c', hc', more, -, rfl⟩ := left c hc
      exact hall _ hc' f hf v (List.mem_append_left _ hv)
    · obtain ⟨d, hd, hname⟩ := exists_continued hlen hn
        (fun c hc => (left c hc).elim fun _ h => ⟨h.2.choose, h.2.choose_spec.1⟩) hc
      obtain ⟨d', hd', more, hmore, rfl⟩ := left d hd
      obtain rfl : more = c := List.inj_on_of_nodup_map ht (List.mem_of_find?_eq_some hmore) hc
        ((name_of_column? hmore).trans hname)
      exact hall _ hd' f (hname ▸ hf) v (List.mem_append_right _ hv)
  · rintro ⟨hout, htable⟩ c' hc' f hf v hv
    obtain ⟨c, hc, more, hmore, rfl⟩ := right c' hc'
    rcases List.mem_append.1 hv with hv | hv
    · exact hout c hc f hf v hv
    · exact htable more (List.mem_of_find?_eq_some hmore) f (name_of_column? hmore ▸ hf) v hv

/-- **A stack of tables is as declared if each of the tables is left as it is** by the schema of the
stack. -/
theorem concat_declared_iff {tables : List Table} (hu : concat tables s.names = .ok u)
    (ht : ∀ t ∈ tables, t.names.Nodup) :
    u.HasColumns s ∧ (u.coerce s = u ↔ ∀ t ∈ tables, t.coerce s = t) := by
  obtain ⟨columns, hfold, hbuild⟩ := bind_eq_ok.1 hu
  obtain ⟨rfl, -, hnodup⟩ := build_eq_ok.1 hbuild
  have stacked : ∀ (out : List Column), tables.foldlM appendTo out = .ok columns →
      (Table.mk columns).names = (Table.mk out).names ∧
        ((Table.mk columns).coerce s = ⟨columns⟩ ↔
          (Table.mk out).coerce s = ⟨out⟩ ∧ ∀ t ∈ tables, t.coerce s = t) := by
    clear hu hfold hbuild
    induction tables with
    | nil =>
      intro out hfold
      obtain rfl := Except.ok.inj hfold
      simp
    | cons t rest ih =>
      intro out hfold
      rw [List.forall_mem_cons] at ht
      rw [List.foldlM_cons] at hfold
      obtain ⟨out', happ, hfold⟩ := bind_eq_ok.1 hfold
      obtain ⟨hnames, hiff⟩ := ih ht.2 out' hfold
      have hnames := hnames.trans (names_appendTo happ)
      refine ⟨hnames, ?_⟩
      rw [hiff, appendTo_declared_iff happ ht.1 (hnames ▸ hnodup), List.forall_mem_cons, and_assoc]
  obtain ⟨hnames, hiff⟩ := stacked _ hfold
  have hstart : (Table.mk (s.names.map fun n => ⟨n, []⟩)).names = s.names := by
    rw [names, List.map_map]
    exact List.map_id _
  refine ⟨⟨hnames.trans hstart, hnodup⟩, hiff.trans (and_iff_right ?_)⟩
  rw [coerce_eq_self_iff_mem]
  intro c hc f _ v hv
  obtain ⟨n, -, rfl⟩ := List.mem_map.1 hc
  cases hv

/-! ## Statistics -/

theorem columnStats_declared (values : List Scalar) {v : Scalar}
    (hv : v ∈ Describe.columnStats values) : v.coerce .float64 = v := by
  have deviation (xs : List Double) (mean : Double) :
      (Describe.deviation xs mean).coerce .float64 = Describe.deviation xs mean := by
    rw [Describe.deviation]
    split <;> rfl
  rw [Describe.columnStats] at hv
  split at hv
  · simp only [List.mem_cons, List.not_mem_nil, or_false] at hv
    rcases hv with rfl | rfl | rfl | rfl | rfl | rfl | rfl | rfl <;>
      first | rfl | exact deviation _ _
  · rcases List.mem_cons.1 hv with rfl | hv
    · rfl
    · obtain rfl := (List.mem_replicate.1 hv).2
      rfl

theorem IsDeclared.describe (h : t.IsDeclared s) (hu : Describe.describe t = .ok u) :
    u.IsDeclared (Describe.schema s) := by
  obtain ⟨rfl, -, hnodup⟩ := ofColumns_eq_ok.1 (mapError_eq_ok.1 hu)
  refine isDeclared_of_columns (.cons ⟨rfl, fun v hv => ?_⟩ ?_) hnodup
  · obtain ⟨label, -, rfl⟩ := List.mem_map.1 hv
    rfl
  · rw [List.forall₂_map_left_iff, List.forall₂_map_right_iff]
    exact h.forall₂.imp fun c f hc => ⟨hc.name, fun v hv => columnStats_declared _ hv⟩

end Table
end LazyQuery
