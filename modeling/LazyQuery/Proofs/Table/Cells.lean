import LazyQuery.Graph.Build
import LazyQuery.Proofs.Table.Groups
import LazyQuery.Proofs.Table.Index
import LazyQuery.Proofs.Table.Level

/-!
# Laws for the cells of a column

A `CellLaw` says what may stand in a column of a type, with nulls allowed or not. A table *obeys* a law
under a schema if its columns are those of the schema and their cells may stand there. What operations
do to cells is the same whatever the law is: they take cells over from other columns, and a cell is
looked for in a row, where there is null if the table has no such row.

* `Table.Reads` says that what is read in a row may stand in its column. Of a level table these are the
  rows that it has (`Table.Level.reads`), and all rows if the law lets null stand anywhere.
* `Table.Obeys.take` is for operations that choose rows, and the lemmas after it say that they choose
  rows that are there.
* `Table.Obeys.join` needs of the law that it is lenient where nulls are allowed (`CellLaw.Lenient`).
-/

set_option autoImplicit false

namespace LazyQuery

/-- What may stand in a column of a type, with nulls allowed or not. -/
abbrev CellLaw := DataType → Bool → Scalar → Prop

/-- Where nulls are allowed, nothing is forbidden that may stand in the same column without them, and
null is not. -/
structure CellLaw.Lenient (law : CellLaw) : Prop where
  widen : ∀ {type nullable v}, law type nullable v → law type true v
  null : ∀ type, law type true .null

/-- A column under the name of a field, with cells that may stand there. -/
structure Column.Obeys (law : CellLaw) (c : Column) (f : Field) : Prop where
  name : c.name = f.name
  cells : ∀ v ∈ c.values, law f.type f.nullable v

/-- Under a law that lets null stand anywhere, whatever is read of a column may stand in it. -/
theorem Column.Obeys.getD {law : CellLaw} {c : Column} {f : Field} (h : c.Obeys law f)
    (hnull : ∀ type nullable, law type nullable .null) (i : Nat) :
    law f.type f.nullable (c.values.getD i .null) := by
  rw [List.getD_eq_getElem?_getD]
  cases hi : c.values[i]? with
  | none => exact hnull _ _
  | some v => exact h.cells v (List.mem_of_getElem? hi)

namespace Table

variable {law : CellLaw} {t u : Table} {s s' : Schema} {f : Field} {c : Column} {columns : List Column}

/-- The columns of the table are those of the schema, under distinct names, with cells that may stand
there. -/
structure Obeys (law : CellLaw) (t : Table) (s : Schema) : Prop where
  nodup : s.names.Nodup
  columns : List.Forall₂ (Column.Obeys law) t.columns s.fields

theorem names_eq_of_forall₂ {R : Column → Field → Prop} (hR : ∀ c f, R c f → c.name = f.name)
    (h : List.Forall₂ R t.columns s.fields) : t.names = s.names := by
  rw [names, Schema.names, ← List.forall₂_eq_eq_eq, List.forall₂_map_left_iff,
    List.forall₂_map_right_iff]
  exact h.imp hR

theorem Obeys.names (h : t.Obeys law s) : t.names = s.names :=
  names_eq_of_forall₂ (fun _ _ hc => hc.name) h.columns

/-- Columns that obey, and under distinct names, make a table that does. -/
theorem obeys_of_columns (h : List.Forall₂ (Column.Obeys law) columns s.fields)
    (hn : (Table.mk columns).names.Nodup) : (Table.mk columns).Obeys law s :=
  ⟨names_eq_of_forall₂ (t := ⟨columns⟩) (fun _ _ hc => hc.name) h ▸ hn, h⟩

/-- A column of a table is that of the field of its name. -/
theorem Obeys.column? (h : t.Obeys law s) {name : String} (hc : t.column? name = some c) :
    ∃ f, s.field? name = some f ∧ c.Obeys law f := by
  have h := h.columns
  rw [Table.column?] at hc
  rw [Schema.field?]
  generalize t.columns = columns, s.fields = fields at h hc
  induction h with
  | nil => cases hc
  | @cons d g _ _ hd _ ih =>
    rw [List.find?_cons] at hc ⊢
    rw [← hd.name]
    cases hn : d.name == name with
    | true =>
      rw [hn, Option.some.injEq] at hc
      exact ⟨g, rfl, hc ▸ hd⟩
    | false =>
      rw [hn] at hc
      exact ih hc

/-- Under a law that lets null stand anywhere, a cell may stand in the column that it is looked for
in. -/
theorem Obeys.cell (h : t.Obeys law s) (hnull : ∀ type nullable, law type nullable .null)
    {name : String} {f : Field} (hf : s.field? name = some f) (i : Nat) :
    law f.type f.nullable (t.cell name i) := by
  have hmem : name ∈ t.names := by
    rw [h.names, ← Schema.field?_name hf]
    exact List.mem_map_of_mem (Schema.mem_of_field? hf)
  obtain ⟨c, hc⟩ := exists_column? hmem
  obtain ⟨g, hg, hobeys⟩ := h.column? hc
  obtain rfl := Option.some.inj (hf.symm.trans hg)
  rw [cell_of_column? hc]
  exact hobeys.getD hnull i

/-! ## Rows that are read -/

/-- Whatever is read in a row may stand in its column. -/
def Reads (law : CellLaw) (t : Table) (i : Nat) : Prop :=
  ∀ c ∈ t.columns, ∀ f, c.Obeys law f → law f.type f.nullable (c.values.getD i .null)

theorem reads_of_null (hnull : ∀ type nullable, law type nullable .null) (t : Table) (i : Nat) :
    t.Reads law i := fun _ _ _ hf => hf.getD hnull i

theorem Level.reads (h : t.Level) {i : Nat} (hi : i < t.rowCount) : t.Reads law i := by
  intro c hc f hf
  have hi : i < c.values.length := h c hc ▸ hi
  rw [List.getD_eq_getElem?_getD, List.getElem?_eq_getElem hi]
  exact hf.cells _ (List.getElem_mem hi)

theorem Obeys.take (h : t.Obeys law s) {indices : List Nat} (hi : ∀ i ∈ indices, t.Reads law i) :
    (t.take indices).Obeys law s := by
  refine ⟨h.nodup, ?_⟩
  have hcolumns := h.columns
  rw [Table.take, List.forall₂_map_left_iff]
  refine (List.forall₂_and_left (p := (· ∈ t.columns)) _ _).2 ⟨fun _ hc => hc, hcolumns⟩ |>.imp ?_
  rintro c f ⟨hc, hf⟩
  refine ⟨hf.name, fun v hv => ?_⟩
  obtain ⟨i, hmem, rfl⟩ := List.mem_map.1 hv
  exact hi i hmem c hc f hf

/-! ## Rows that are chosen -/

section Rows

variable (h : t.Obeys law s) (hr : ∀ i, i < t.rowCount → t.Reads law i)
include h hr

theorem Obeys.dropDuplicates (hu : t.dropDuplicates = .ok u) : u.Obeys law s := by
  obtain ⟨digests, hdigests, hu⟩ := bind_eq_ok.1 hu
  obtain rfl := Except.ok.inj hu
  obtain ⟨_, -, hdigests⟩ := bind_eq_ok.1 (mapError_eq_ok.1 hdigests)
  obtain rfl := Except.ok.inj hdigests
  exact h.take fun i hi => hr i (mem_firstPositions.1 hi).1

theorem Obeys.filter {mask : List Scalar} (hu : t.filter mask = .ok u) : u.Obeys law s := by
  rw [Table.filter] at hu
  simp only [throw_eq_error, error_bind, ite_error_eq_ok, ne_eq, not_not] at hu
  obtain ⟨hlen, hu⟩ := hu
  obtain rfl := Except.ok.inj hu
  refine h.take fun i hi => hr i ?_
  obtain ⟨p, hp, rfl⟩ := List.mem_map.1 hi
  exact hlen ▸ List.snd_lt_of_mem_zipIdx (List.mem_filter.1 hp).1

theorem Obeys.sortValues {keys : List (String × Bool)} (hu : t.sortValues keys = .ok u) :
    u.Obeys law s := by
  have hu := mapError_eq_ok.1 hu
  rw [sortBy] at hu
  split at hu
  · obtain rfl := Except.ok.inj hu
    exact h
  · obtain ⟨_, -, hu⟩ := bind_eq_ok.1 hu
    obtain rfl := Except.ok.inj hu
    exact h.take fun i hi => hr i (List.mem_range.1 (List.mem_mergeSort.1 hi))

theorem Obeys.limit (n : Nat) : (t.limit n).Obeys law s :=
  h.take fun i hi => hr i (Nat.lt_of_lt_of_le (List.mem_range.1 hi) (Nat.min_le_right _ _))

end Rows

/-! ## Columns that are chosen -/

theorem Obeys.select (h : t.Obeys law s) {names : List String} (hp : s.project names = .ok s')
    (hu : t.select names = .ok u) : u.Obeys law s' := by
  obtain ⟨columns, hneed, hbuild⟩ := bind_eq_ok.1 hu
  obtain ⟨rfl, -, hnodup⟩ := build_eq_ok.1 hbuild
  refine obeys_of_columns ?_ hnodup
  have hfields := Schema.project_eq_ok hp
  have hcolumns := mapM_eq_ok.1 hneed
  clear hp hu hneed hbuild hnodup
  generalize s'.fields = fields at hfields
  induction hcolumns generalizing fields with
  | nil =>
    cases hfields
    exact .nil
  | cons hc _ ih =>
    obtain ⟨⟩ | ⟨hf, hfields⟩ := hfields
    obtain ⟨g, hg, hobeys⟩ := h.column? (need_eq_ok.1 hc)
    obtain rfl := Option.some.inj (hf.symm.trans hg)
    exact .cons hobeys (ih _ hfields)

theorem Obeys.rename (h : t.Obeys law s) {mapping : List (String × String)}
    (hu : t.rename mapping = .ok u) : u.Obeys law (s.renamed mapping) := by
  obtain ⟨_, -, hu⟩ := bind_eq_ok.1 hu
  obtain ⟨rfl, -, hnodup⟩ := build_eq_ok.1 hu
  refine obeys_of_columns ?_ hnodup
  rw [Schema.renamed, List.forall₂_map_left_iff, List.forall₂_map_right_iff]
  exact h.columns.imp fun c f hc => ⟨by rw [hc.name], hc.cells⟩

theorem Obeys.assignColumn (h : t.Obeys law s) {name : String} {values : List Scalar}
    (hv : ∀ v ∈ values, law f.type f.nullable v) (hu : t.assignColumn name values = .ok u) :
    u.Obeys law (s.put { f with name := name }) := by
  have hnames : t.columns.map Column.name = s.fields.map Field.name := h.names
  have hnodup : t.names.Nodup := h.names ▸ h.nodup
  obtain rfl := assignColumn_eq_put hnodup hu
  have hnew : Column.Obeys law ⟨name, values⟩ { f with name := name } := ⟨rfl, hv⟩
  rw [put_eq h.nodup]
  refine obeys_of_columns ?_ (nodup_putNamed hnodup _)
  · dsimp only
    rw [putNamed, putNamed, hnames]
    split
    · rw [List.forall₂_map_left_iff, List.forall₂_map_right_iff]
      refine h.columns.imp fun c g hc => ?_
      rw [hc.name]
      split
      · exact hnew
      · exact hc
    · exact List.rel_append (R := Column.Obeys law) h.columns (.cons hnew .nil)

/-! ## Joins -/

/-- A join pairs rows that are there, and leaves a row alone in an outer join only. -/
theorem mem_joinPairs {how : JoinType} {leftKeys rightKeys : List (Option Key)} {p : Nat × Option Nat}
    (h : p ∈ joinPairs how leftKeys rightKeys) : p.1 < leftKeys.length ∧
      (∀ j, p.2 = some j → j < rightKeys.length) ∧ (p.2 = none → how = .left) := by
  rw [joinPairs_eq_loop] at h
  obtain ⟨⟨key, i⟩, hi, h⟩ := List.mem_flatMap.1 h
  have hi : i < leftKeys.length := List.snd_lt_of_mem_zipIdx hi
  dsimp only at h
  split at h
  · split at h
    · rename_i how_eq
      obtain rfl := List.mem_singleton.1 h
      exact ⟨hi, nofun, fun _ => how_eq⟩
    · cases h
  · obtain ⟨j, hj, rfl⟩ := List.mem_map.1 h
    refine ⟨hi, fun j' hj' => ?_, nofun⟩
    obtain rfl := Option.some.inj hj'
    cases key with
    | none => cases hj
    | some k =>
      obtain ⟨q, hq, rfl⟩ := List.mem_map.1 hj
      exact List.snd_lt_of_mem_zipIdx (List.mem_filter.1 hq).1

theorem length_rowKeys {keys : List String} {rowKeys : List (Option Key)}
    (h : t.rowKeys keys = .ok rowKeys) : rowKeys.length = t.rowCount := by
  obtain ⟨_, -, h⟩ := bind_eq_ok.1 h
  obtain rfl := Except.ok.inj h
  simp

/-- Columns of one side of a join take over what is read in the rows of the side. -/
theorem joined_obeys (h : t.Obeys law s) {pairs : List (String × String)} {fields : List Field}
    (nullable : Bool → Bool)
    (hpairs : List.Forall₂ (fun p f => ∃ g, s.field? p.1 = some g ∧
      f = { g with name := p.2, nullable := nullable g.nullable }) pairs fields)
    {values : Column → List Scalar} (hvalues : ∀ c ∈ t.columns, ∀ f, c.Obeys law f →
      ∀ v ∈ values c, law f.type (nullable f.nullable) v)
    {e : String → FrameError} (hmap : (pairs.mapM fun p =>
      match t.column? p.1 with
      | some c => .ok (Column.mk p.2 (values c))
      | none => .error (e p.1) : Except FrameError (List Column)) = .ok columns) :
    List.Forall₂ (Column.Obeys law) columns fields := by
  have hout := mapM_eq_ok.1 hmap
  clear hmap
  induction hpairs generalizing columns with
  | nil =>
    cases hout
    exact .nil
  | @cons p f pairs fields hf _ ih =>
    obtain ⟨⟩ | ⟨hc, hout⟩ := hout
    obtain ⟨g, hg, rfl⟩ := hf
    split at hc
    · rename_i d hd
      obtain rfl := Except.ok.inj hc
      obtain ⟨g', hg', hobeys⟩ := h.column? hd
      obtain rfl := Option.some.inj (hg.symm.trans hg')
      exact .cons ⟨rfl, hvalues d (List.mem_of_find?_eq_some hd) _ hobeys⟩ (ih hout)
    · cases hc

theorem Obeys.join {l r : Table} (hlaw : law.Lenient) (hl : l.Obeys law s) (hr : r.Obeys law s')
    (hlr : ∀ i, i < l.rowCount → l.Reads law i) (hrr : ∀ i, i < r.rowCount → r.Reads law i)
    {leftOn rightOn : List String} {how : JoinType} {layout : JoinLayout}
    (hmake : JoinLayout.make s s' leftOn rightOn (how == .left) = .ok layout)
    (hu : l.join r leftOn rightOn how layout = .ok u) : u.Obeys law layout.schema := by
  obtain ⟨left, right, hfields, hleft, hright⟩ := JoinLayout.fields_of_make hmake hl.nodup hr.nodup
  rw [Table.join] at hu
  simp only [throw_eq_error, error_bind, ite_error_eq_ok, bind_eq_ok] at hu
  obtain ⟨-, leftKeys, hleftKeys, rightKeys, hrightKeys, leftOut, hleftOut, rightOut, hrightOut, hu⟩ := hu
  obtain ⟨rfl, -, hnodup⟩ := ofColumns_eq_ok.1 (mapError_eq_ok.1 hu)
  have hpairs : ∀ p ∈ joinPairs how leftKeys rightKeys, p.1 < l.rowCount ∧
      (∀ j, p.2 = some j → j < r.rowCount) ∧ (p.2 = none → how = .left) := fun p hp => by
    rw [← length_rowKeys (mapError_eq_ok.1 hleftKeys), ← length_rowKeys (mapError_eq_ok.1 hrightKeys)]
    exact mem_joinPairs hp
  refine obeys_of_columns ?_ hnodup
  rw [hfields]
  refine List.rel_append (R := Column.Obeys law)
    (joined_obeys hl id hleft (fun c hc f hf v hv => ?_)
      (e := fun n => .schema (.missingLeftColumn n)) hleftOut)
    (joined_obeys hr (· || how == .left) hright (fun c hc f hf v hv => ?_)
      (e := fun n => .schema (.missingRightColumn n)) hrightOut)
  · obtain ⟨p, hp, rfl⟩ := List.mem_map.1 hv
    exact hlr p.1 (hpairs p hp).1 c hc f hf
  · obtain ⟨⟨i, j⟩, hp, rfl⟩ := List.mem_map.1 hv
    obtain ⟨-, hj, hnone⟩ := hpairs _ hp
    cases j with
    | none =>
      obtain rfl := hnone rfl
      dsimp only
      rw [beq_self_eq_true, Bool.or_true]
      exact hlaw.null f.type
    | some j =>
      have hcell := hrr j (hj j rfl) c hc f hf
      dsimp only
      cases how == .left with
      | true => rw [Bool.or_true]; exact hlaw.widen hcell
      | false => rw [Bool.or_false]; exact hcell

/-! ## Tables that are stacked -/

/-- Each column goes on with the cells of the table in the column of its name. -/
theorem appendTo_spec {out out' : List Column} (h : appendTo out t = .ok out') :
    t.columns.length = out.length ∧ List.Forall₂ (fun c c' => ∃ more,
      t.column? c.name = some more ∧ c' = ⟨c.name, c.values ++ more.values⟩) out out' := by
  rw [appendTo] at h
  simp only [throw_eq_error, error_bind, ite_error_eq_ok, ne_eq, not_not] at h
  refine ⟨h.1, (mapM_eq_ok.1 h.2).imp fun c c' hc => ?_⟩
  obtain ⟨more, hmore, hc⟩ := bind_eq_ok.1 hc
  exact ⟨more, need_eq_ok.1 hmore, (Except.ok.inj hc).symm⟩

theorem names_appendTo {out out' : List Column} (h : appendTo out t = .ok out') :
    (Table.mk out').names = (Table.mk out).names := by
  rw [names, names, ← List.forall₂_eq_eq_eq, List.forall₂_map_left_iff, List.forall₂_map_right_iff]
  refine (appendTo_spec h).2.flip.imp fun c' c hc => ?_
  obtain ⟨more, -, rfl⟩ := hc
  rfl

/-- Columns that go on with cells of a table obey the fields of the stack, if these allow what those of
the table do. -/
theorem appendTo_obeys {out out' : List Column} (h : appendTo out t = .ok out') {fields : List Field}
    (hout : List.Forall₂ (Column.Obeys law) out fields) (ht : t.Obeys law s')
    (hallows : ∀ f ∈ fields, ∀ g, s'.field? f.name = some g →
      ∀ v, law g.type g.nullable v → law f.type f.nullable v) :
    List.Forall₂ (Column.Obeys law) out' fields := by
  have hspec := (appendTo_spec h).2
  clear h
  induction hout generalizing out' with
  | nil =>
    cases hspec
    exact .nil
  | @cons c f _ _ hc _ ih =>
    obtain ⟨⟩ | ⟨⟨more, hmore, rfl⟩, hspec⟩ := hspec
    rw [List.forall_mem_cons] at hallows
    obtain ⟨g, hg, hobeys⟩ := ht.column? hmore
    refine .cons ⟨hc.name, fun v hv => ?_⟩ (ih hallows.2 hspec)
    rcases List.mem_append.1 hv with hv | hv
    · exact hc.cells v hv
    · exact hallows.1 g (hc.name ▸ hg) v (hobeys.cells v hv)

/-- A stack of tables obeys a schema that allows what the schemas of the tables do. -/
theorem concat_obeys {tables : List Table} (hu : concat tables s.names = .ok u)
    (ht : ∀ t ∈ tables, ∃ s', t.Obeys law s' ∧ ∀ f ∈ s.fields, ∀ g, s'.field? f.name = some g →
      ∀ v, law g.type g.nullable v → law f.type f.nullable v) : u.Obeys law s := by
  obtain ⟨columns, hfold, hbuild⟩ := bind_eq_ok.1 hu
  obtain ⟨rfl, -, hnodup⟩ := build_eq_ok.1 hbuild
  refine obeys_of_columns ?_ hnodup
  have hstart : List.Forall₂ (Column.Obeys law) (s.names.map fun n => ⟨n, []⟩) s.fields := by
    rw [Schema.names, List.map_map, List.forall₂_map_left_iff]
    exact List.forall₂_same.2 fun f _ => ⟨rfl, List.forall_mem_nil _⟩
  clear hu hbuild hnodup
  generalize (s.names.map fun n => Column.mk n []) = out at hfold hstart
  induction tables generalizing out with
  | nil =>
    obtain rfl := Except.ok.inj hfold
    exact hstart
  | cons t rest ih =>
    rw [List.forall_mem_cons] at ht
    rw [List.foldlM_cons] at hfold
    obtain ⟨out', happ, hfold⟩ := bind_eq_ok.1 hfold
    obtain ⟨s', hobeys, hallows⟩ := ht.1
    exact ih ht.2 out' hfold (appendTo_obeys happ hstart hobeys hallows)

/-! ## Groups -/

/-- The first row of a group is one of the table. -/
theorem headD_lt_of_mem_groups {keys : List String} {gs : List (List Nat)} {g : List Nat}
    (h : t.groups keys = .ok gs) (hg : g ∈ gs) : g.headD 0 < t.rowCount := by
  obtain ⟨-, rfl⟩ := groups_eq_ok.1 h
  obtain ⟨i, hi, rfl⟩ := List.mem_map.1 hg
  rw [headD_groupOf hi]
  exact (mem_firstPositions.1 (List.mem_mergeSort.1 hi)).1

/-- The key columns of groups take over what is read in the first rows of the groups. -/
theorem keyColumns_obey (h : t.Obeys law s) {keys : List String} {gs : List (List Nat)}
    (hr : ∀ g ∈ gs, t.Reads law (g.headD 0)) {keyColumns : List Column} {keyFields : List Field}
    (hk : t.keyColumns keys = .ok keyColumns) (hf : keys.mapM (Graph.keyField s) = .ok keyFields) :
    List.Forall₂ (Column.Obeys law) ((keys.zip keyColumns).map fun (k, c) =>
        ⟨k, gs.map fun g => c.values.getD (g.headD 0) .null⟩) keyFields := by
  rw [List.forall₂_map_left_iff]
  replace hk := keyColumns_eq_ok.1 hk
  replace hf := mapM_eq_ok.1 hf
  induction hk generalizing keyFields with
  | nil =>
    cases hf
    exact .nil
  | @cons k c _ _ hc _ ih =>
    obtain ⟨⟩ | ⟨hfield, hf⟩ := hf
    refine .cons ?_ (ih hf)
    obtain ⟨f, hfound, hobeys⟩ := h.column? hc
    rw [Graph.keyField, hfound] at hfield
    obtain rfl := Except.ok.inj hfield
    refine ⟨(Schema.field?_name hfound).symm, fun v hv => ?_⟩
    obtain ⟨g, hg, rfl⟩ := List.mem_map.1 hv
    exact hr g hg c (List.mem_of_find?_eq_some hc) _ hobeys

end Table
end LazyQuery
