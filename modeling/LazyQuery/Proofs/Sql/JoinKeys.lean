import LazyQuery.Proofs.Sql.References
import LazyQuery.Proofs.Sql.StoredEquality
import LazyQuery.Proofs.Table.Cells
import LazyQuery.Proofs.Table.Digests
import LazyQuery.Proofs.Table.NestedLoop

/-!
# Keys of joins, in memory and in queries

A join in memory pairs rows by the frames of their key cells, and a query by the condition that it is
written with. `joinPairs_iff_isMet` says when that is the same, for cells of any type, floats and
blobs among them. The tables of the query are declared by the schemas of the two sides.

* `Table.keysMatch_iff` takes the keys of two rows apart, cell by cell.
* `Scope.Declares` says what a query of declared tables has in scope, and `RowKeeps` what is there of
  their rows: what columns of the declared types keep of the cells.
* `Input.isMet` is the condition of a query on a row of each table.
-/

set_option autoImplicit false

namespace LazyQuery

open Sql

/-- Cells of the type of their column and missing ones. There is no undefined float among them, and
no text or blob that is too long to be told in bytes. -/
def CellLaw.typed : CellLaw := fun type _ v => v.isNull = true ∨
  v.dataType = type ∧ v.isDefined = true ∧ v.isSized = true

theorem CellLaw.isSized_of_typed {type : DataType} {nullable : Bool} {v : Scalar}
    (h : CellLaw.typed type nullable v) : v.isSized = true := by
  obtain h | ⟨-, -, h⟩ := h
  · cases v <;> first | rfl | cases h
  · exact h

namespace Table

variable {l r t : Table} {s : Schema} {leftOn rightOn : List String} {i j : Nat}

theorem Obeys.typed_cell (h : t.Obeys .typed s) {name : String} {f : Field}
    (hf : s.field? name = some f) (i : Nat) : CellLaw.typed f.type f.nullable (t.cell name i) :=
  h.cell (fun _ _ => .inl rfl) hf i

theorem Obeys.sized_cells (h : t.Obeys .typed s) {names : List String}
    (hn : ∀ n ∈ names, n ∈ s.names) (i : Nat) : ∀ n ∈ names, (t.cell n i).isSized = true := by
  intro n hmem
  obtain ⟨f, hf⟩ := Schema.field?_isSome (hn n hmem)
  exact CellLaw.isSized_of_typed (h.typed_cell hf i)

/-! ## Pairs of rows -/

/-- Two cells that are there and have one frame. -/
def SameFrame (v w : Scalar) : Prop := v.isNull = false ∧ w.isNull = false ∧ v.frame = w.frame

theorem keyOf_eq_iff_sameFrame {xs ys : List Scalar} (hxs : ∀ v ∈ xs, v.isSized = true)
    (hys : ∀ v ∈ ys, v.isSized = true) (h : xs.length = ys.length) :
    (xs.any Scalar.isNull = false ∧ ys.any Scalar.isNull = false ∧
      Scalar.keyOf xs = Scalar.keyOf ys) ↔ List.Forall₂ SameFrame xs ys := by
  rw [Scalar.keyOf_eq_iff_frames hxs hys h]
  clear hxs hys
  induction xs generalizing ys with
  | nil =>
    obtain rfl := List.eq_nil_of_length_eq_zero h.symm
    simp
  | cons x xs ih =>
    cases ys with
    | nil => cases h
    | cons y ys =>
      rw [List.forall₂_cons, List.forall₂_cons, ← ih (Nat.succ_inj.1 h), List.any_cons, List.any_cons,
        Bool.or_eq_false_iff, Bool.or_eq_false_iff, SameFrame]
      tauto

/-- Keys match if their cells do, one by one. -/
theorem keysMatch_iff (hlen : leftOn.length = rightOn.length)
    (hl : ∀ n ∈ leftOn, (l.cell n i).isSized = true)
    (hr : ∀ n ∈ rightOn, (r.cell n j).isSized = true) : keysMatch l r leftOn rightOn i j = true ↔
      ∀ p ∈ leftOn.zip rightOn, SameFrame (l.cell p.1 i) (r.cell p.2 j) := by
  rw [keysMatch, Bool.and_eq_true, Bool.and_eq_true, Bool.not_eq_true', Bool.not_eq_true', beq_iff_eq,
    and_assoc, keyOf_eq_iff_sameFrame (List.forall_mem_map.2 hl) (List.forall_mem_map.2 hr)
      (by simpa using hlen), List.forall₂_map_left_iff, List.forall₂_map_right_iff,
    List.forall₂_iff_zip]
  exact ⟨fun h p hp => h.2 hp, fun h => ⟨hlen, fun hp => h _ hp⟩⟩

end Table

/-! ## Rows of declared tables -/

namespace StoredTable.IsLoaded

variable {x : StoredTable} {t : Table} {s : Schema} {i : Nat}

/-- A row of a stored table is what its columns keep of the cells. -/
theorem row (h : x.IsLoaded t s) (hnames : t.names = s.names) (hn : s.names.Nodup)
    (hi : i < t.rowCount) :
    x.rows.getD i [] = s.fields.map fun f => kept f.type (t.cell f.name i) := by
  have hrow : x.rows.getD i [] = x.keptRow ((t.row i).map Datum.ofScalar) := by
    rw [h.rows, Table.rows, List.map_map, List.getD_eq_getElem?_getD, List.getElem?_map,
      List.getElem?_range hi]
    rfl
  rw [hrow, Table.row_of_nodup (hnames ▸ hn), hnames, StoredTable.keptRow, h.columns, Schema.names]
  simp only [List.map_map, List.zipWith_map, List.zipWith_self]
  rfl

end StoredTable.IsLoaded

namespace Sql

/-- The columns of a schema are in scope under the name of a table, from a position on, with the
affinities that their types declare. -/
def Scope.Declares (scope : Scope) (table : String) (s : Schema) (k : Nat) : Prop :=
  ∀ (j : Nat) (f : Field), s.fields[j]? = some f → scope.index? table f.name = some (k + j) ∧
    scope.affinityAt (k + j) = declaredAffinity f.type

/-- From a position on, a row has what the columns of a schema keep of the given cells. -/
def RowKeeps (row : List Datum) (s : Schema) (k : Nat) (cell : String → Scalar) : Prop :=
  ∀ (j : Nat) (f : Field), s.fields[j]? = some f → row[k + j]? = some (kept f.type (cell f.name))

section

variable {x y : StoredTable} {l r t : Table} {s s' : Schema} {i j : Nat} {table table' : String}

theorem ofRelation_declared (h : x.IsLoaded t s) (table : String) : Scope.ofRelation table x.relation =
    s.fields.map fun f => ⟨table, ⟨f.name, declaredAffinity f.type, false⟩, false⟩ := by
  rw [Scope.ofRelation, StoredTable.relation, Relation.numbered, Relation.ofTable, h.columns,
    List.map_map, List.map_map]
  rfl

theorem declares_append (h : x.IsLoaded t s) (hs : s.Apart) (table : String) (front back : Scope)
    (hf : ∀ b ∈ front, sameName b.table table = false) :
    (front ++ Scope.ofRelation table x.relation ++ back).Declares table s front.length := by
  have hblock := ofRelation_declared h table
  have hnamed : List.Forall₂ (Binding.IsNamed table) (Scope.ofRelation table x.relation) s.names := by
    rw [hblock, Schema.names, List.forall₂_map_left_iff, List.forall₂_map_right_iff]
    exact List.forall₂_same.2 fun f _ => ⟨rfl, rfl, rfl⟩
  intro j f hj
  obtain ⟨hlt, rfl⟩ := List.getElem?_eq_some_iff.1 hj
  have hindex := index?_append table front back hf hnamed hs (j := j)
    (by simpa [Schema.names] using hlt)
  refine ⟨by simpa [Schema.names] using hindex, ?_⟩
  rw [Scope.affinityAt, getElem?_middle front back (by simpa [hblock] using hlt), hblock,
    List.getElem?_map, List.getElem?_eq_getElem hlt]
  rfl

/-- What a join of two declared tables has in scope. -/
theorem declares_join (hx : x.IsLoaded l s) (hy : y.IsLoaded r s') (hs : s.Apart) (hs' : s'.Apart)
    (hne : sameName table table' = false) {scope : Scope}
    (h : scope = Scope.ofRelation table x.relation ++ Scope.ofRelation table' y.relation) :
    scope.Declares table s 0 ∧ scope.Declares table' s' s.fields.length := by
  subst h
  constructor
  · exact declares_append hx hs table [] _ nofun
  · have h := declares_append hy hs' table' (Scope.ofRelation table x.relation) [] fun b hb => by
      obtain ⟨c, -, rfl⟩ := List.mem_map.1 hb
      exact hne
    rwa [List.append_nil, ofRelation_declared hx, List.length_map, ← ofRelation_declared hx] at h

theorem rowKeeps_append (h : x.IsLoaded t s) (hnames : t.names = s.names) (hn : s.names.Nodup)
    (hi : i < t.rowCount) (front back : List Datum) :
    RowKeeps (front ++ x.rows.getD i [] ++ back) s front.length (t.cell · i) := by
  intro j f hj
  obtain ⟨hlt, rfl⟩ := List.getElem?_eq_some_iff.1 hj
  rw [h.row hnames hn hi, getElem?_middle front back (by simpa using hlt), List.getElem?_map,
    List.getElem?_eq_getElem hlt]
  rfl

/-- What a join of two declared tables has of their rows. -/
theorem rowKeeps_join (hx : x.IsLoaded l s) (hy : y.IsLoaded r s') (hl : l.names = s.names)
    (hr : r.names = s'.names) (hn : s.names.Nodup) (hn' : s'.names.Nodup) (hi : i < l.rowCount)
    (hj : j < r.rowCount) :
    RowKeeps (x.rows.getD i [] ++ y.rows.getD j []) s 0 (l.cell · i) ∧
      RowKeeps (x.rows.getD i [] ++ y.rows.getD j []) s' s.fields.length (r.cell · j) := by
  constructor
  · exact rowKeeps_append hx hl hn hi [] _
  · have hlen : (x.rows.getD i []).length = s.fields.length := by
      rw [hx.row hl hn hi, List.length_map]
    have h := rowKeeps_append hy hr hn' hj (x.rows.getD i []) []
    rwa [List.append_nil, hlen] at h

end

/-- A field's column is found with its affinity. -/
theorem Scope.Declares.affinity {scope : Scope} {table : String} {s : Schema} {k : Nat}
    (h : scope.Declares table s k) {name : String} {f : Field} (hf : s.field? name = some f) :
    (Expr.column table name).affinity scope = declaredAffinity f.type := by
  obtain ⟨j, hj⟩ := Schema.exists_index hf
  obtain rfl := Schema.field?_name hf
  obtain ⟨hindex, haffinity⟩ := h j f hj
  rw [Expr.affinity, hindex]
  exact haffinity

/-- In a row the column has what it keeps of the cell. -/
theorem Scope.Declares.eval {scope : Scope} {row : List Datum} {table : String} {s : Schema} {k : Nat}
    {cell : String → Scalar} (h : scope.Declares table s k) (hrow : RowKeeps row s k cell)
    {name : String} {f : Field} (hf : s.field? name = some f) :
    (Expr.column table name).eval scope row = kept f.type (cell name) := by
  obtain ⟨j, hj⟩ := Schema.exists_index hf
  obtain rfl := Schema.field?_name hf
  rw [Expr.eval, (h j f hj).1, Option.bind_some, hrow j f hj, Option.getD_some]

theorem Scope.Declares.found {scope : Scope} {table : String} {s : Schema} {k : Nat}
    (h : scope.Declares table s k) {name : String} (hname : name ∈ s.names) :
    (Expr.column table name).wellScoped scope = true := by
  obtain ⟨f, hf⟩ := Schema.field?_isSome hname
  obtain ⟨j, hj⟩ := Schema.exists_index hf
  obtain rfl := Schema.field?_name hf
  rw [Expr.wellScoped, (h j f hj).1]
  rfl

/-- What a pair of columns is compared to, as their fields are declared. -/
theorem holds_declared {scope : Scope} {row : List Datum} {left right : String} {s s' : Schema}
    {k k' : Nat} {cell cell' : String → Scalar} (h : scope.Declares left s k)
    (h' : scope.Declares right s' k') (hrow : RowKeeps row s k cell) (hrow' : RowKeeps row s' k' cell')
    {a b : String} {f g : Field} (hf : s.field? a = some f) (hg : s'.field? b = some g) :
    (Expr.compare .eq (.column left a) (.column right b)).holds scope row =
      storedEqual f.type (cell a) g.type (cell' b) := by
  rw [Expr.holds, Expr.eval, h.affinity hf, h.eval hrow hf, h'.affinity hg, h'.eval hrow' hg]
  rfl

/-- Cells that belong into their columns are equal in a query if they have one frame, unless they are
disputed. -/
theorem sameFrame_iff_storedEqual {t u : DataType} {nullable nullable' : Bool} {v w : Scalar}
    (hv : CellLaw.typed t nullable v) (hw : CellLaw.typed u nullable' w) :
    (Table.SameFrame v w ↔ storedEqual t v u w = true) ↔ ¬ Disputed v w := by
  by_cases hnv : v.isNull = true
  · exact iff_of_true (iff_of_false (fun h => Bool.false_ne_true (h.1.symm.trans hnv))
      (storedEqual_null hnv)) (not_disputed_null hnv)
  by_cases hnw : w.isNull = true
  · rw [storedEqual_comm, disputed_comm]
    exact iff_of_true (iff_of_false (fun h => Bool.false_ne_true (h.2.1.symm.trans hnw))
      (storedEqual_null hnw)) (not_disputed_null hnw)
  obtain ⟨rfl, hdv, hsv⟩ := hv.resolve_left hnv
  obtain ⟨rfl, hdw, hsw⟩ := hw.resolve_left hnw
  rw [Bool.not_eq_true] at hnv hnw
  rw [← frame_eq_iff_storedEqual hnv hnw hdv hdw hsv hsw, Table.SameFrame, and_iff_right hnv,
    and_iff_right hnw]

end Sql

/-- Two conditions on the items of a list that agree on an item just if it is not in dispute. -/
theorem forall_iff_forall {α : Type} {xs : List α} {P Q D : α → Prop}
    (h : ∀ x ∈ xs, (P x ↔ Q x) ↔ ¬ D x) : ((∀ x ∈ xs, P x) ↔ ∀ x ∈ xs, Q x) ↔
      ((∀ x ∈ xs, P x) ∨ (∀ x ∈ xs, Q x) → ∀ x ∈ xs, ¬ D x) := by
  constructor
  · intro hiff hany x hx
    have hp := hany.elim id hiff.2
    exact (h x hx).1 (iff_of_true (hp x hx) (hiff.1 hp x hx))
  · intro hagree
    refine ⟨fun hp x hx => ?_, fun hq x hx => ?_⟩
    · exact ((h x hx).2 (hagree (.inl hp) x hx)).1 (hp x hx)
    · exact ((h x hx).2 (hagree (.inr hq) x hx)).2 (hq x hx)

namespace Graph

variable {g : Graph} {id left right : NodeId} {n ln rn : Node} {leftOn rightOn : List String}
  {how : JoinType} {layout : JoinLayout} {l r : Table} {x y : StoredTable}

theorem compound_join (hn : g.node? id = some n)
    (hop : n.op = .join left right leftOn rightOn how layout) (hln : g.node? left = some ln)
    (hrn : g.node? right = some rn) :
    g.compound id = .ok [joinSelect ln rn leftOn rightOn how layout] := by
  rw [compound, node_eq_ok.2 hn, ok_bind]
  dsimp only
  rw [hop]
  dsimp only
  rw [node_eq_ok.2 hln, node_eq_ok.2 hrn]
  rfl

/-- **A join in memory and its query pair the same rows, but for disputed keys.** The tables of the query
are loaded into columns that the schemas of the two sides declare. Of two rows that the join or the
query pairs, the other one pairs them too just if no key cells of theirs are disputed. -/
theorem joinPairs_iff_isMet (hg : g.Constructed) (hn : g.node? id = some n)
    (hop : n.op = .join left right leftOn rightOn how layout) (hln : g.node? left = some ln)
    (hrn : g.node? right = some rn) (hl : l.Obeys .typed ln.schema) (hr : r.Obeys .typed rn.schema)
    (ha : ln.schema.Apart) (ha' : rn.schema.Apart) (hx : x.IsLoaded l ln.schema)
    (hy : y.IsLoaded r rn.schema) :
    ∃ leftKeys rightKeys sel input, l.rowKeys leftOn = .ok leftKeys ∧
      r.rowKeys rightOn = .ok rightKeys ∧ g.compound id = .ok [sel] ∧ sel.input? = some input ∧
        (∀ catalog, catalog ln.name = some x.relation → catalog rn.name = some y.relation →
          ∃ scope, input.eval? catalog = some (scope,
            (Input.joinRows how x.relation y.relation (input.isMet x.relation y.relation)).rearrange
              (catalog.plan.arrange catalog.place input))) ∧
          ∀ i < l.rowCount, ∀ j < r.rowCount,
            let isPaired := (i, some j) ∈ Table.joinPairs how leftKeys rightKeys
            let isMet := input.isMet x.relation y.relation (x.rows.getD i []) (y.rows.getD j []) = true
            (isPaired ↔ isMet) ↔ (isPaired ∨ isMet → ∀ p ∈ leftOn.zip rightOn,
              ¬ Disputed (l.cell p.1 i) (r.cell p.2 j)) := by
  have hs := hg.wellFormed.hasSchema hn
  rw [hop] at hs
  obtain ⟨-, _, _, hschema, hschema', hmake⟩ := hs
  obtain rfl := schema_eq hschema hln
  obtain rfl := schema_eq hschema' hrn
  obtain ⟨-, hlen, hlOn, hrOn, -⟩ := Table.layout_fields hmake ha.nodup ha'.nodup
  have hlabel := getD_rightLabel ln rn
  obtain ⟨hleft, hright⟩ := declares_join hx hy ha ha' (sameName_rightLabel hg.wellFormed hln hrn) rfl
  refine ⟨_, _, _, _, Table.rowKeys_ok fun c hc => hl.names ▸ hlOn c hc,
    Table.rowKeys_ok fun c hc => hr.names ▸ hrOn c hc, compound_join hn hop hln hrn,
    input?_joinSelect ln rn leftOn rightOn how layout, fun catalog hc hc' => ?_, fun i hi j hj => ?_⟩
  · exact ⟨_, Input.eval?_join hlabel hc hc' rfl fun p hp =>
      ⟨hleft.found (hlOn p.1 (List.of_mem_zip hp).1),
        hright.found (hrOn p.2 (List.of_mem_zip hp).2)⟩⟩
  · dsimp only
    obtain ⟨hrow, hrow'⟩ := rowKeeps_join hx hy hl.names hr.names ha.nodup ha'.nodup hi hj
    rw [Table.joinPairs_eq, Table.mem_pairsOf, Table.areMatched_eq_keysMatch, and_iff_right hi,
      and_iff_right hj, Table.keysMatch_iff hlen (hl.sized_cells hlOn i) (hr.sized_cells hrOn j),
      Input.isMet_joinPairs hlabel, List.all_eq_true]
    -- What is left is a pair of keys, and the two columns that it names.
    refine forall_iff_forall fun p hp => ?_
    obtain ⟨f, hf⟩ := Schema.field?_isSome (hlOn p.1 (List.of_mem_zip hp).1)
    obtain ⟨f', hf'⟩ := Schema.field?_isSome (hrOn p.2 (List.of_mem_zip hp).2)
    rw [holds_declared hleft hright hrow hrow' hf hf']
    exact sameFrame_iff_storedEqual (hl.typed_cell hf i) (hr.typed_cell hf' j)

/-- Integers joined with texts. -/
def integersWithTexts : Graph :=
  let k : Field := ⟨"k", .int64, true⟩
  ⟨"s", #[⟨0, "ts_0", .source, ⟨[k]⟩⟩, ⟨1, "ts_1", .source, ⟨[⟨"k", .utf8, true⟩]⟩⟩,
    ⟨2, "ts_2", .join 0 1 ["k"] ["k"] .inner ⟨[("k", "k")], [], ⟨[k]⟩⟩, ⟨[k]⟩⟩], #[[2], [2], []]⟩

theorem constructed_integersWithTexts : integersWithTexts.Constructed :=
  .add (r := (2, integersWithTexts)) (.add (.add (.empty "s") (.source ⟨[⟨"k", .int64, true⟩]⟩) rfl)
    (.source ⟨[⟨"k", .utf8, true⟩]⟩) rfl) (.join 0 1 ["k"] ["k"] .inner) rfl

/-- A query joins the integer 1 with a text of one digit, and a join in memory does not. -/
theorem joinPairs_iff_isMet_digit :
    let l : Table := ⟨[⟨"k", [.int 1]⟩]⟩
    let r : Table := ⟨[⟨"k", [.text "1"]⟩]⟩
    let x : StoredTable := ⟨"ts_0", [("k", .integer)], [[.integer 1]], default⟩
    let y : StoredTable := ⟨"ts_1", [("k", .text)], [[.text "1"]], default⟩
    ∃ leftKeys rightKeys sel input, l.rowKeys ["k"] = .ok leftKeys ∧ r.rowKeys ["k"] = .ok rightKeys ∧
      integersWithTexts.compound 2 = .ok [sel] ∧ sel.input? = some input ∧
        (0, some 0) ∉ Table.joinPairs .inner leftKeys rightKeys ∧
          input.isMet x.relation y.relation [.integer 1] [.text "1"] = true := by
  intro l r x y
  have hl : l.Obeys .typed ⟨[⟨"k", .int64, true⟩]⟩ :=
    ⟨by decide, .cons ⟨rfl, by unfold CellLaw.typed; decide +kernel⟩ .nil⟩
  have hr : r.Obeys .typed ⟨[⟨"k", .utf8, true⟩]⟩ :=
    ⟨by decide, .cons ⟨rfl, by unfold CellLaw.typed; decide +kernel⟩ .nil⟩
  have hdisputed : Disputed (l.cell "k" 0) (r.cell "k" 0) :=
    .inr (.inl ⟨rfl, "1", .integer 1, rfl, by decide +kernel, by decide +kernel⟩)
  obtain ⟨leftKeys, rightKeys, sel, input, hleft, hright, hcompound, hinput, -, hiff⟩ :=
    @joinPairs_iff_isMet _ 2 0 1 _ _ _ ["k"] ["k"] .inner _ l r x y constructed_integersWithTexts rfl
      rfl rfl rfl hl hr (List.pairwise_singleton _ _) (List.pairwise_singleton _ _)
      ⟨rfl, rfl, rfl, by decide⟩ ⟨rfl, rfl, rfl, by decide⟩
  have hiff := hiff 0 (by decide) 0 (by decide)
  have hmet : input.isMet x.relation y.relation [.integer 1] [.text "1"] = true := by
    cases hcompound
    cases hinput
    decide +kernel
  refine ⟨leftKeys, rightKeys, sel, input, hleft, hright, hcompound, hinput, fun hpaired => ?_, hmet⟩
  exact hiff.1 (iff_of_true hpaired hmet) (.inr hmet) _ (List.mem_singleton_self _) hdisputed

end Graph
end LazyQuery
