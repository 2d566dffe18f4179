import LazyQuery.Proofs.Sql.Aggregate
import LazyQuery.Proofs.Sql.Operands
import LazyQuery.Proofs.Sql.References

/-!
# What statements yield

The statement of a portable node, over relations that hold the rows of what its inputs denote, yields the
rows of what the node denotes, and in the same order if there are no joins (`Graph.statement_holds`). There
is one lemma for each kind of operation, which puts together what is known of the operation on tables, of
the query for it, and of the operands.
-/

set_option autoImplicit false

namespace LazyQuery

open Sql

namespace Graph

variable {g : Graph} {base : BaseTables} {id d : NodeId} {m n : Node} {t u x y : Table} {catalog : Catalog}

/-- The table of a node is in reach, and holds the rows of what the node denotes. -/
def Held (g : Graph) (base : BaseTables) (catalog : Catalog) (id : NodeId) : Prop :=
  ∃ n u r, g.node? id = some n ∧ g.Represents base id n u ∧ catalog n.name = some r ∧ r.Holds u n.schema

/-- The node's statement yields the rows of what the node denotes. -/
def Yields (g : Graph) (base : BaseTables) (catalog : Catalog) (asked : Bool) (id : NodeId) (n : Node) :
    Prop :=
  ∃ u, g.Represents base id n u ∧ ∃ body r, g.compound id = .ok body ∧
    evalCompound? catalog asked body = some r ∧ r.Holds u n.schema

/-- What is known of the table that a statement reads, and of the table that its node denotes. -/
structure Reads (g : Graph) (base : BaseTables) (catalog : Catalog) (table : NodeId) (m : Node)
    (t u : Table) (r : Relation) : Prop where
  node : g.node? table = some m
  portable : m.IsPortable g base table
  denotes : g.Denotes base table m t
  presents : g.Presents table t u
  found : catalog m.name = some r
  holds : r.Holds u m.schema

namespace Reads

variable {table : NodeId} {r : Relation}

theorem conforms (h : g.Reads base catalog table m t u r) : t.Conforms m.schema := h.denotes.1

theorem apart (h : g.Reads base catalog table m t u r) : m.schema.Apart := h.portable.kept.apart

theorem distinct (h : g.Reads base catalog table m t u r) : m.schema.Distinct := h.portable.distinct

theorem conforms_held (h : g.Reads base catalog table m t u r) : u.Conforms m.schema :=
  h.presents.conforms h.conforms h.distinct.nonempty

theorem sameRows (h : g.Reads base catalog table m t u r) : t.SameRows u :=
  h.presents.sameRows (h.conforms.columns_ne_nil h.distinct.nonempty)

theorem inputTable (h : g.Reads base catalog table m t u r) :
    g.inputTable (g.denote base) table = .ok t :=
  h.denotes.inputTable h.node h.distinct

/-- What an operation makes of the two tables, if it keeps rows together. -/
theorem presents_of_eq_ok (h : g.Reads base catalog table m t u r) (hn : g.node? id = some n)
    (hd : table ∈ n.op.inputs) {f : Table → Except FrameError Table} (hx : f t = .ok x)
    (hy : f u = .ok y) (hs : x.SameRows y) {s : Schema} (hxs : x.Conforms s) (hys : y.Conforms s)
    (hne : s.fields ≠ []) : g.Presents id x y := by
  refine presents_of_sameRows hs hxs hys hne fun hj => ?_
  rw [h.presents.eq h.conforms (hj.input hn hd)] at hy
  exact Except.ok.inj (hy.symm.trans hx)

end Reads

theorem Held.reads (h : g.Held base catalog d) (hp : g.Portable base d) :
    ∃ m t u r, g.Reads base catalog d m t u r := by
  obtain ⟨m, u, r, hm, ⟨t, hden, hu⟩, hr, hholds⟩ := h
  exact ⟨m, t, u, r, hm, hp.node hm, hden, hu, hr, hholds⟩

/-- A single `SELECT` yields the rows of the table that the evaluation of the node yields. -/
theorem yields_of_select (hg : g.WellFormed) (hb : g.Based base) (hn : g.node? id = some n)
    (hs : n.op.isSource = false) (hp : n.IsPortable g base id)
    (hresult : n.resultOf x = .table (x.coerce n.schema)) {asked : Bool} {sel : Select}
    (hbody : g.compound id = .ok [sel]) (hv : g.evaluate (g.denote base) id = .ok (.table x))
    (hx : x.Conforms n.schema) (hxy : g.Presents id x y)
    (hr : ∃ r, sel.eval? catalog asked = some r ∧ r.Holds y n.schema) :
    g.Yields base catalog asked id n := by
  obtain ⟨r, hr, hholds⟩ := holds_single hr
  exact ⟨y, ⟨x, denotes_of_evaluate hg hb hn hs hp.distinct hx hresult hv, hxy⟩, _, r, hbody, hr, hholds⟩

/-- The values of rows that come in their own order. -/
theorem map_order_range {value : Nat → Scalar} {order : List Nat} {k : Nat} (h : order = List.range k) :
    ((List.range k).map fun i => value (order.getD i 0)) = (List.range k).map value := by
  subst h
  exact List.map_congr_left fun i hi => by simp [List.mem_range.1 hi]

section Statements

variable {name : String} {s : Schema} {k : NodeId} {r : Relation} {table : NodeId}

theorem yields_projection (hg : g.WellFormed) (hb : g.Based base) {columns : List String}
    {unique : Bool} (hn : g.node? id = some ⟨k, name, .projection table columns unique, s⟩)
    (hp : g.Portable base id) (asked : Bool) (h : g.Reads base catalog table m t u r) :
    g.Yields base catalog asked id ⟨k, name, .projection table columns unique, s⟩ := by
  obtain ⟨-, -, i, hi, hproject⟩ := hg.hasSchema hn
  obtain rfl := schema_eq hi h.node
  have hd := (hp.node hn).distinct
  have hin : table ∈ (Op.projection table columns unique).inputs := List.mem_singleton_self _
  have hbody : g.compound id = .ok [{ Select.ofInput (columnItems m.name columns) (.table m.name) with
      distinct := unique }] := by
    rw [compound, node_eq_ok.2 hn, ok_bind]
    dsimp only
    rw [node_eq_ok.2 h.node]
    rfl
  have hinput := h.inputTable
  obtain ⟨x, hx, hxconf, -⟩ := Table.select_rows h.conforms hproject hd
  have selected {y : Table} (hy : u.select columns = .ok y) : x.SameRows y :=
    h.sameRows.select h.conforms h.conforms_held h.distinct.nonempty hproject hd hx hy
  cases unique with
  | false =>
    obtain ⟨y, r', hy, hyconf, -, hr'⟩ :=
      select_holds asked h.apart h.found h.holds h.conforms_held hproject hd
    refine yields_of_select hg hb hn rfl (hp.node hn) rfl hbody ?_ hxconf
      (h.presents_of_eq_ok hn hin (f := (·.select columns)) hx hy (selected hy) hxconf hyconf
        hd.nonempty) ⟨r', hr'⟩
    rw [evaluate, node_eq_ok.2 hn]
    change (g.inputTable (g.denote base) table >>= _) = _
    rw [hinput, ok_bind, hx]
    rfl
  | true =>
    obtain ⟨y, z, r', hy, hz, hzconf, hr'⟩ :=
      selectDistinct_holds h.apart h.found h.holds h.conforms_held hproject hd
    have hyconf : y.Conforms s := by
      obtain ⟨y', hy', hyconf, -⟩ := Table.select_rows h.conforms_held hproject hd
      obtain rfl := Except.ok.inj (hy.symm.trans hy')
      exact hyconf
    have hfirsts := Table.dropDuplicates_eq x
    have hsame : (x.take x.firstRows).SameRows z := by
      obtain rfl := Except.ok.inj (hz.symm.trans (Table.dropDuplicates_eq y))
      exact (selected hy).firsts hxconf hyconf hd
    have hxconf' := Table.conforms_take hxconf hd.nonempty x.firstRows
    refine yields_of_select hg hb hn rfl (hp.node hn) rfl hbody ?_ hxconf'
      (h.presents_of_eq_ok hn hin (f := fun t => t.select columns >>= Table.dropDuplicates)
        (bind_eq_ok.2 ⟨x, hx, hfirsts⟩) (bind_eq_ok.2 ⟨y, hy, hz⟩) hsame hxconf' hzconf hd.nonempty)
      ⟨r', hr'⟩
    rw [evaluate, node_eq_ok.2 hn]
    change (g.inputTable (g.denote base) table >>= _) = _
    rw [hinput, ok_bind, hx]
    change ((liftM x.dropDuplicates : Except EngineError Table) >>= _) = _
    rw [hfirsts]
    rfl

theorem yields_orderBy (hg : g.WellFormed) (hb : g.Based base) {keys : List (String × Bool)}
    (hn : g.node? id = some ⟨k, name, .orderBy table keys, s⟩) (hp : g.Portable base id) (asked : Bool)
    (h : g.Reads base catalog table m t u r) :
    g.Yields base catalog asked id ⟨k, name, .orderBy table keys, s⟩ := by
  obtain ⟨hne, hs, hrequire⟩ := hg.hasSchema hn
  obtain rfl := schema_eq hs h.node
  have hkeys := Schema.require_eq_ok.1 hrequire
  have hfields := h.distinct.nonempty
  have sorted {x : Table} (hx : x.Conforms m.schema) : x.sortValues keys = .ok (x.take (x.sortOrder keys)) :=
    Table.sortValues_eq (fun _ hc => (Table.conforms_of_mem hx hc).choose_spec.2.length) fun n hn =>
      hx.names_eq ▸ hkeys n hn
  obtain ⟨y, r', hy, hyconf, hr'⟩ := sort_holds asked h.apart hfields h.found h.holds h.conforms_held
    hkeys hne
  have hsame : (t.take (t.sortOrder keys)).SameRows y := by
    obtain rfl := Except.ok.inj (hy.symm.trans (sorted h.conforms_held))
    exact h.sameRows.sorted (h.conforms.columns_ne_nil hfields) (h.conforms_held.columns_ne_nil hfields) keys
  have hxconf := Table.conforms_take h.conforms hfields (t.sortOrder keys)
  refine yields_of_select hg hb hn rfl (hp.node hn) rfl ?_ ?_ hxconf
    (h.presents_of_eq_ok hn (List.mem_singleton_self _) (f := (·.sortValues keys)) (sorted h.conforms) hy
      hsame hxconf hyconf hfields) ⟨r', hr'⟩
  · rw [compound, node_eq_ok.2 hn, ok_bind]
    dsimp only
    rw [node_eq_ok.2 h.node]
    rfl
  · rw [evaluate, node_eq_ok.2 hn]
    change (g.inputTable (g.denote base) table >>= _) = _
    rw [h.inputTable, ok_bind, sorted h.conforms]
    rfl

theorem yields_rename (hg : g.WellFormed) (hb : g.Based base) {mapping : List (String × String)}
    (hn : g.node? id = some ⟨k, name, .rename table mapping, s⟩) (hp : g.Portable base id) (asked : Bool)
    (h : g.Reads base catalog table m t u r) :
    g.Yields base catalog asked id ⟨k, name, .rename table mapping, s⟩ := by
  obtain ⟨-, i, hi, hrequire, rfl⟩ := hg.hasSchema hn
  obtain rfl := schema_eq hi h.node
  have hd := (hp.node hn).distinct
  have hkeys := Schema.require_eq_ok.1 hrequire
  obtain ⟨hx, hxconf⟩ := Table.rename_ok h.conforms hkeys hd
  obtain ⟨y, r', hy, hyconf, hr'⟩ := rename_holds asked h.apart h.found h.holds h.conforms_held hkeys hd
  have hxconf := Table.conforms_of_columns hxconf hd.nonempty
  refine yields_of_select hg hb hn rfl (hp.node hn) rfl ?_ ?_ hxconf
    (h.presents_of_eq_ok hn (List.mem_singleton_self _) (f := (·.rename mapping)) hx hy
      (h.sameRows.rename h.conforms h.conforms_held hkeys hd hx hy) hxconf hyconf hd.nonempty) ⟨r', hr'⟩
  · rw [compound, node_eq_ok.2 hn, ok_bind]
    dsimp only
    rw [node_eq_ok.2 h.node]
    rfl
  · rw [evaluate, node_eq_ok.2 hn]
    change (g.inputTable (g.denote base) table >>= _) = _
    rw [h.inputTable, ok_bind, hx]
    rfl

/-- The expression of an operand. -/
theorem Stands.expression {a : NodeId} {f : Field} {value : Nat → Scalar}
    (h : g.Stands base m t a f value) (ha : a < g.size) :
    ∃ e, g.expression a = .ok e ∧ e.Means m.name m.schema t f.type value :=
  h.means (g.size + 1) (Nat.lt_succ_of_lt ha)

theorem yields_selection (hg : g.WellFormed) (hb : g.Based base) {c : NodeId}
    (hn : g.node? id = some ⟨k, name, .selection table c, s⟩)
    (hp : g.Portable base id) (asked : Bool) (h : g.Reads base catalog table m t u r) :
    g.Yields base catalog asked id ⟨k, name, .selection table c, s⟩ := by
  have hs := hg.hasSchema hn
  obtain ⟨-, n, hc, hpred⟩ := hg.linked hn
  obtain ⟨⟨n', hn', hrow⟩, hintegral⟩ := (hp.node hn).op
  rw [hc, Option.some.injEq] at hn'
  subst hn'
  obtain rfl := schema_eq hs h.node
  have hinput := h.inputTable
  have hfields := h.distinct.nonempty
  have hne := h.conforms.columns_ne_nil hfields
  obtain ⟨f, value, hvalue⟩ := stands hg hb h.node h.conforms hinput hc hpred.isOperandOf hrow
    (hp.input hn (by simp [Op.inputs, Op.sources, Op.evalSources]))
  obtain ⟨e, he, hem⟩ := hvalue.expression (lt_size_of_node? hc)
  have hx := Table.filter_ok (t := t) ((List.range t.rowCount).map value) (by simp)
  generalize hpassed : List.filter _ (List.range t.rowCount) = passed at hx
  have hxconf := Table.conforms_take h.conforms hfields passed
  have hjoinless : g.IsJoinless id → g.IsJoinless table := fun hj =>
    hj.input hn (by simp [Op.inputs, Op.sources])
  obtain ⟨order, horder, rfl, hsame⟩ := h.presents
  obtain ⟨y, r', hy, hyconf, hr'⟩ := filter_holds asked h.apart hfields h.found h.holds h.conforms_held
    (hem.take hne horder) (hintegral f hvalue.field)
  rw [Table.rowCount_order horder hne] at hy
  refine yields_of_select hg hb hn rfl (hp.node hn) rfl ?_ ?_ hxconf
    (presents_of_sameRows (Table.sameRows_filter h.conforms hfields horder hx hy) hxconf hyconf hfields
      fun hj => ?_) ⟨r', hr'⟩
  · rw [compound, node_eq_ok.2 hn, ok_bind]
    dsimp only
    rw [node_eq_ok.2 h.node, he]
    rfl
  · rw [evaluate, node_eq_ok.2 hn]
    change (g.inputTable (g.denote base) table >>= _) = _
    rw [hinput, ok_bind, hvalue.values, ok_bind, hx]
    rfl
  · rw [map_order_range (hsame (hjoinless hj)), h.presents.eq h.conforms (hjoinless hj)] at hy
    exact Except.ok.inj (hy.symm.trans hx)

theorem yields_assign (hg : g.WellFormed) (hb : g.Based base) {column : String} {v : NodeId}
    (hn : g.node? id = some ⟨k, name, .assign table column v, s⟩)
    (hp : g.Portable base id) (asked : Bool) (h : g.Reads base catalog table m t u r) :
    g.Yields base catalog asked id ⟨k, name, .assign table column v, s⟩ := by
  obtain ⟨i, f, hi, hf, rfl⟩ := hg.hasSchema hn
  obtain ⟨-, n, hv, hop⟩ := hg.linked hn
  obtain ⟨n', hn', hrow⟩ := (hp.node hn).op
  rw [hv, Option.some.injEq] at hn'
  subst hn'
  obtain rfl := schema_eq hi h.node
  have hinput := h.inputTable
  have hd := (hp.node hn).distinct
  have hfields := h.distinct.nonempty
  have hne := h.conforms.columns_ne_nil hfields
  obtain ⟨f', value, hvalue⟩ := stands hg hb h.node h.conforms hinput hv hop hrow
    (hp.input hn (by simp [Op.inputs, Op.sources, Op.evalSources]))
  obtain rfl := Except.ok.inj (hvalue.field.symm.trans hf)
  obtain ⟨e, he, hem⟩ := hvalue.expression (lt_size_of_node? hv)
  have hcolumn : Column.Conforms t.rowCount ⟨column, (List.range t.rowCount).map value⟩
      { f' with name := column } := by
    refine ⟨rfl, hvalue.plain, by simp, fun v hv => ?_⟩
    obtain ⟨i, hi, rfl⟩ := List.mem_map.1 hv
    exact hvalue.admits (List.mem_range.1 hi)
  obtain ⟨hx, hxconf⟩ := Table.assignColumn_ok h.conforms h.distinct hcolumn
  have hxconf := Table.conforms_of_columns hxconf hd.nonempty
  have hjoinless : g.IsJoinless id → g.IsJoinless table := fun hj =>
    hj.input hn (by simp [Op.inputs, Op.sources])
  obtain ⟨order, horder, rfl, hsame⟩ := h.presents
  obtain ⟨y, r', hy, hyconf, hr'⟩ := assign_holds (f := { f' with name := column }) asked
    h.apart h.distinct h.found h.holds h.conforms_held hvalue.plain (hem.take hne horder)
  rw [Table.rowCount_order horder hne] at hy
  refine yields_of_select hg hb hn rfl (hp.node hn) rfl ?_ ?_ hxconf
    (presents_of_sameRows (Table.sameRows_assign (f := { f' with name := column }) h.conforms hfields
      horder h.distinct hcolumn hx hy) hxconf hyconf hd.nonempty fun hj => ?_) ⟨r', hr'⟩
  · rw [compound, node_eq_ok.2 hn, ok_bind]
    dsimp only
    rw [node_eq_ok.2 h.node, he]
    rfl
  · rw [evaluate, node_eq_ok.2 hn]
    change (g.inputTable (g.denote base) table >>= _) = _
    rw [hinput, ok_bind, hvalue.values, ok_bind, hx]
    rfl
  · rw [map_order_range (hsame (hjoinless hj)), h.presents.eq h.conforms (hjoinless hj)] at hy
    exact Except.ok.inj (hy.symm.trans hx)

/-- The statement of a condition or an arithmetic expression over a table. -/
theorem yields_expression (hg : g.WellFormed) (hb : g.Based base) {n : Node} {f : Field}
    (hn : g.node? id = some n) (ho : n.op.IsOperandOf table) (hin : table ∈ n.op.inputs)
    (hrow : n.op.isRowwise = true) (htable : n.op.isTable = true)
    (hresult : ∀ u, n.resultOf u = .table (u.coerce n.schema))
    (hs : n.schema.fields = [f]) (hp : g.Portable base id)
    (hbody : ∀ e, g.expression id = .ok e →
      g.compound id = .ok [Select.ofInput [⟨e, some n.columnName⟩] (.table m.name)])
    (asked : Bool) (h : g.Reads base catalog table m t u r) : g.Yields base catalog asked id n := by
  obtain ⟨f', value, hvalue⟩ := stands hg hb h.node h.conforms (h.inputTable) hn ho
    hrow hp
  obtain rfl := Except.ok.inj (hvalue.field.symm.trans (operandField_eq_ok hn hs))
  obtain ⟨e, he, hem⟩ := hvalue.expression (lt_size_of_node? hn)
  have hschema : n.schema = ⟨[f']⟩ := by rw [← hs]
  have hname : n.columnName = f'.name := by
    rw [Node.columnName, Node.columns, Schema.names, hs]
    rfl
  have hne := h.conforms.columns_ne_nil h.distinct.nonempty
  have hd := (hp.node hn).distinct
  have hadmits : ∀ i < t.rowCount, f'.type.admits (value i) = true := fun _ hi => hvalue.admits hi
  obtain ⟨hconf, hrows⟩ := conforms_single hvalue.plain hadmits
  obtain ⟨order, horder, rfl, hsame⟩ := h.presents
  have hcount := Table.rowCount_order horder hne
  have hem' := hem.take hne horder
  obtain ⟨-, hrows'⟩ := conforms_single hvalue.plain fun i hi => hem'.admits hi
  obtain ⟨hconf', r', hr'⟩ := expression_holds asked h.apart h.found h.holds h.conforms_held
    hvalue.plain hem'
  rw [← hschema] at hconf hconf' hr'
  rw [hcount] at hconf' hr' hrows'
  obtain ⟨r', hr', hholds⟩ := holds_single ⟨r', hr'⟩
  refine ⟨_, ⟨_, ⟨hconf, ?_⟩, presents_of_sameRows ?_ hconf hconf' hd.nonempty fun hj => ?_⟩, _, r',
    hbody e he, ?_, hholds⟩
  · rw [hresult, Table.coerce_eq hconf hd.nodup, hvalue.denotes ⟨n, hn, htable⟩]
  · refine .of_rows hconf hconf' ?_
    rw [hrows, hrows']
    exact (perm_map_order horder fun _ _ => rfl).symm
  · rw [map_order_range (hsame (hj.input hn hin))]
  · rwa [hname]

theorem yields_join (hg : g.WellFormed) (hb : g.Based base) {l r : NodeId} {ln rn : Node}
    {lt lu rt ru : Table} {lr rr : Relation} {leftOn rightOn : List String} {how : JoinType}
    {layout : JoinLayout} (hn : g.node? id = some ⟨k, name, .join l r leftOn rightOn how layout, s⟩)
    (hp : g.Portable base id) (asked : Bool) (hl : g.Reads base catalog l ln lt lu lr)
    (hr : g.Reads base catalog r rn rt ru rr) :
    g.Yields base catalog asked id ⟨k, name, .join l r leftOn rightOn how layout, s⟩ := by
  obtain ⟨rfl, i, j, hi, hj, hmake⟩ := hg.hasSchema hn
  obtain rfl := schema_eq hi hl.node
  obtain rfl := schema_eq hj hr.node
  have hfields := (hp.node hn).nonempty
  have hon := (hp.node hn).op _ _ (schema?_eq_some hl.node) (schema?_eq_some hr.node)
  obtain ⟨columns, hx, hxconf, -⟩ :=
    Table.join_ok how hl.conforms hr.conforms hl.distinct hr.distinct hmake hfields rfl
  have hxconf := Table.conforms_of_columns hxconf hfields
  obtain ⟨y, order, r', hy, hyconf, horder, hr', hholds⟩ := join_holds asked hl.found hr.found hl.holds
    hr.holds hl.conforms_held hr.conforms_held hl.apart hr.apart hl.distinct hr.distinct hmake hon hfields
    (sameName_rightLabel hg hl.node hr.node)
  have hsame := (hl.sameRows.join hr.sameRows hl.conforms hl.conforms_held hr.conforms hr.conforms_held
    hl.distinct hr.distinct hmake hfields hx hy).trans
      (Table.sameRows_take (hyconf.columns_ne_nil hfields) horder)
  refine yields_of_select hg hb hn rfl (hp.node hn) rfl ?_ ?_ hxconf
    (presents_of_sameRows hsame hxconf (Table.conforms_take hyconf hfields order) hfields fun hj => ?_)
    ⟨r', hr', hholds⟩
  · rw [compound, node_eq_ok.2 hn, ok_bind]
    dsimp only
    rw [node_eq_ok.2 hl.node, node_eq_ok.2 hr.node]
    rfl
  · rw [evaluate, node_eq_ok.2 hn]
    change (g.inputValue (g.denote base) l >>= _) = _
    rw [hl.denotes.inputValue hl.node, ok_bind]
    dsimp only
    rw [hr.denotes.inputValue hr.node, ok_bind]
    dsimp only
    rw [Node.toTable_resultOf hl.conforms hl.distinct, Node.toTable_resultOf hr.conforms hr.distinct]
    change ((liftM (lt.join rt leftOn rightOn how layout) : Except EngineError Table) >>= _) = _
    rw [hx]
    rfl
  · cases hj (.inl rfl) hn

theorem yields_union (hg : g.WellFormed) (hb : g.Based base) {inputs : List NodeId}
    (hn : g.node? id = some ⟨k, name, .union inputs, s⟩) (hp : g.Portable base id) (asked : Bool)
    (h : ∀ d ∈ inputs, ∃ m t u r, g.Reads base catalog d m t u r) :
    g.Yields base catalog asked id ⟨k, name, .union inputs, s⟩ := by
  obtain ⟨hne, -⟩ := hg.linked hn
  have hportable := hp.node hn
  have hd := hportable.distinct
  have : Nonempty Node := ⟨⟨k, name, .union inputs, s⟩⟩
  choose! m t u r h using h
  have hschema : ∀ d ∈ inputs, g.schema? d = some (m d).schema := fun d hd =>
    schema?_eq_some (h d hd).node
  have stacksOn : ∀ d ∈ inputs, StacksOn s (m d).schema := fun d hd =>
    hportable.op d hd _ (hschema d hd)
  have hplain : ∀ f ∈ s.fields, f.type.isPlain = true := by
    obtain ⟨d, hd⟩ := List.exists_mem_of_ne_nil inputs hne
    intro f hf
    obtain ⟨f', hf', htype⟩ := (stacksOn d hd).2 f hf
    obtain ⟨c, -, hc⟩ := (h d hd).conforms.column? hf'
    exact htype ▸ hc.isPlain
  obtain ⟨columns, w, hx, hxconf, -⟩ := Table.concat_ok (inputs.map t) hd hplain fun x hx => by
    obtain ⟨d, hd, rfl⟩ := List.mem_map.1 hx
    exact ⟨_, (h d hd).conforms, stacksOn d hd⟩
  have hxconf := Table.conforms_of_columns hxconf hd.nonempty
  obtain ⟨y, r', hy, hyconf, hr', hholds⟩ := union_holds asked
    (inputs.map fun d => ((m d).name, (m d).schema, u d)) (by simpa using hne)
    hd hplain fun p hp => by
      obtain ⟨d, hd, rfl⟩ := List.mem_map.1 hp
      exact ⟨stacksOn d hd, (h d hd).apart, (h d hd).conforms_held, r d, (h d hd).found, (h d hd).holds⟩
  rw [List.map_map] at hy hr'
  have hsame : Table.SameRows ⟨columns⟩ y := by
    refine Table.sameRows_concat hd hplain ?_ hx hy
    rw [List.forall₂_map_left_iff, List.forall₂_map_right_iff]
    exact List.forall₂_same.2 fun d hd =>
      ⟨(h d hd).sameRows, _, (h d hd).conforms, (h d hd).conforms_held, stacksOn d hd⟩
  refine ⟨y, ⟨_, denotes_of_evaluate hg hb hn rfl hd hxconf rfl ?_,
    presents_of_sameRows hsame hxconf hyconf hd.nonempty fun hj => ?_⟩, _, r', ?_, hr', hholds⟩
  · rw [evaluate, node_eq_ok.2 hn]
    change (inputs.mapM (g.inputValue (g.denote base)) >>= _) = _
    rw [mapM_eq_map fun d hd => (h d hd).denotes.inputValue (h d hd).node, ok_bind, List.mapM_map]
    have htables : inputs.mapM (fun d =>
        (liftM (((m d).resultOf (t d)).toTable (m d).columns) : Except EngineError Table)) =
          .ok (inputs.map t) := mapM_eq_map fun d hd =>
      mapError_eq_ok.2 (Node.toTable_resultOf (h d hd).conforms (h d hd).distinct)
    change (inputs.mapM (fun d =>
      (liftM (((m d).resultOf (t d)).toTable (m d).columns) : Except EngineError Table)) >>= _) = _
    rw [htables, ok_bind]
    change ((liftM (Table.concat _ s.names) : Except EngineError Table) >>= _) = _
    rw [hx]
    rfl
  · have hsources : inputs.map ((fun p => p.2.2) ∘ fun d => ((m d).name, (m d).schema, u d)) =
        inputs.map t :=
      List.map_congr_left fun d hd => (h d hd).presents.eq (h d hd).conforms
        (hj.input hn (by simpa [Op.inputs, Op.sources, Op.evalSources] using hd))
    rw [hsources] at hy
    exact Except.ok.inj (hy.symm.trans hx)
  · rw [compound, node_eq_ok.2 hn, ok_bind]
    refine mapM_eq_map fun d hd => ?_
    change (g.node d >>= _) = _
    rw [node_eq_ok.2 (h d hd).node]
    rfl

theorem keyFields_of_mapM {i : Schema} {keys : List String} {fields : List Field}
    (h : keys.mapM (keyField i) = .ok fields) :
    List.Forall₂ (fun k f => i.field? k = some f) keys fields := by
  refine (mapM_eq_ok.1 h).imp fun k f hf => ?_
  rw [keyField] at hf
  split at hf
  · rename_i f' hf'
    cases hf
    exact hf'
  · cases hf

/-- The fields of aggregates, over columns of plain cells. -/
theorem aggregatedBy_of_mapM {i : Schema} (ht : t.Conforms i) {func : AggFunc} (hfunc : func.isPlain = true)
    {columns : List String} {fields : List Field}
    (h : columns.mapM (aggregateField i func) = .ok fields) :
    List.Forall₂ (Table.AggregatedBy i func) columns fields := by
  refine (mapM_eq_ok.1 h).imp fun c f hf => ?_
  rw [aggregateField] at hf
  split at hf
  · cases hf
  · rename_i f' hf'
    obtain ⟨_, -, hc⟩ := ht.column? hf'
    split at hf
    · cases hf
    · rename_i hnum
      cases hf
      refine ⟨f', hf', ?_, rfl, rfl⟩
      rw [AggFunc.takes, hfunc, hc.isPlain]
      revert hnum
      cases func.requiresNumeric <;> cases f'.type.isNumeric <;> simp

section Aggregation

variable {source input : NodeId} {func : AggFunc} {keys columns : List String}

/-- The fields of an aggregation over a table of plain cells. -/
theorem aggregator_fields (hg : g.WellFormed)
    (hn : g.node? id = some ⟨k, name, .aggregator source func input keys columns, s⟩)
    (hp : g.Portable base id) (h : g.Reads base catalog input m t u r) :
    ∃ keyFields fields, s.fields = keyFields ++ fields ∧ columns ≠ [] ∧
      List.Forall₂ (fun c f => m.schema.field? c = some f) keys keyFields ∧
        List.Forall₂ (Table.AggregatedBy m.schema func) columns fields := by
  obtain ⟨hne, i, keyFields, fields, hi, hkeys, hfields, hs⟩ := hg.hasSchema hn
  obtain rfl := schema_eq hi h.node
  exact ⟨keyFields, fields, congrArg Schema.fields hs, hne, keyFields_of_mapM hkeys,
    aggregatedBy_of_mapM h.conforms (hp.node hn).op hfields⟩

/-- What a table is aggregated to. -/
def aggregateTo (keys columns : List String) (func : AggFunc) (t : Table) : Except FrameError Table :=
  if keys = [] then t.aggregateTable func columns else t.aggregateGroups keys columns func

/-- The table of the aggregates, and what is in its rows. -/
theorem aggregateTo_ok {i : Schema} (ht : t.Conforms i) (hd : s.Distinct) {keyFields fields : List Field}
    (hs : s.fields = keyFields ++ fields)
    (hk : List.Forall₂ (fun c f => i.field? c = some f) keys keyFields)
    (hf : List.Forall₂ (Table.AggregatedBy i func) columns fields)
    (hno : aggregateTo keys columns func t ≠ .error (.overflow "sum")) :
    ∃ x, aggregateTo keys columns func t = .ok x ∧ x.Conforms s ∧
      (∀ c ∈ columns, ∀ group ∈ t.groupsOf keys, aggregate func (group.map (t.cell c)) =
        .ok (aggregateOf func (group.map (t.cell c)))) ∧
      x.rows = (t.groupsOf keys).map (t.aggregatedRow keys columns func) := by
  rw [aggregateTo] at hno ⊢
  by_cases hnil : keys = []
  · subst hnil
    obtain rfl : keyFields = [] := by cases hk; rfl
    rw [if_pos rfl] at hno ⊢
    obtain ⟨out, hagg, rfl, hconf, hall⟩ := Table.aggregateTable_ok ht hd (hs ▸ hf) hno
    refine ⟨_, hagg, Table.conforms_of_columns hconf hd.nonempty, fun c hc group hgroup => ?_, ?_⟩
    · obtain rfl := List.mem_singleton.1 hgroup
      exact hall c hc
    · rw [Table.rows_eq hconf hd.nonempty, Table.groupsOf, if_pos rfl]
      simp [Table.aggregatesOver, Table.aggregatedRow]
  · rw [if_neg hnil] at hno ⊢
    obtain ⟨out, hagg, hconf, hall, hrows⟩ := Table.aggregateGroups_ok ht hd hs hk hf hno
    refine ⟨_, hagg, Table.conforms_of_columns hconf hd.nonempty, fun c hc group hgroup => ?_, ?_⟩
    · rw [Table.groupsOf, if_neg hnil] at hgroup
      obtain ⟨i, hi, rfl⟩ := List.mem_map.1 hgroup
      exact hall c hc i hi
    · rw [hrows, Table.groupsOf, if_neg hnil, List.map_map]
      refine List.map_congr_left fun i hi => ?_
      rw [Function.comp, Table.aggregatedRow, Table.headD_groupOf hi]

/-- An aggregation denotes the table of the aggregates. -/
theorem denotes_aggregator (hg : g.WellFormed) (hb : g.Based base)
    (hn : g.node? id = some ⟨k, name, .aggregator source func input keys columns, s⟩)
    (hp : g.Portable base id) (h : g.Reads base catalog input m t u r) (hx : x.Conforms s)
    (hagg : aggregateTo keys columns func t = .ok x) :
    g.Denotes base id ⟨k, name, .aggregator source func input keys columns, s⟩ x := by
  have hd := (hp.node hn).distinct
  rw [aggregateTo] at hagg
  by_cases hnil : keys = []
  · subst hnil
    rw [if_pos rfl] at hagg
    refine ⟨hx, denote_eq_ok hg hb hn rfl ?_⟩
    rw [evaluate, node_eq_ok.2 hn, Node.resultOf, Table.coerce_eq hx hd.nodup]
    change (g.inputTable (g.denote base) input >>= _) = _
    rw [h.inputTable, ok_bind, if_pos List.isEmpty_nil, hagg]
    rfl
  · rw [if_neg hnil] at hagg
    refine denotes_of_evaluate hg hb hn rfl hd hx ?_ ?_
    · cases keys with
      | nil => exact absurd rfl hnil
      | cons => rfl
    · rw [evaluate, node_eq_ok.2 hn]
      change (g.inputTable (g.denote base) input >>= _) = _
      rw [h.inputTable, ok_bind, if_neg (by simpa using hnil), hagg]
      rfl

theorem yields_aggregator (hg : g.WellFormed) (hb : g.Based base)
    (hn : g.node? id = some ⟨k, name, .aggregator source func input keys columns, s⟩)
    (hp : g.Portable base id) (asked : Bool) (h : g.Reads base catalog input m t u r) :
    g.Yields base catalog asked id ⟨k, name, .aggregator source func input keys columns, s⟩ := by
  obtain ⟨keyFields, fields, hs, hne, hk, hf⟩ := aggregator_fields hg hn hp h
  have hd := (hp.node hn).distinct
  have fits {z : Table} (hz : g.Presents input t z) :
      aggregateTo keys columns func z ≠ .error (.overflow "sum") := by
    have hrange := (hp.node hn).inRange t z h.inputTable hz
    rw [aggregateTo]
    split <;> simp_all
  obtain ⟨x, hx, hxconf, hxall, hxrows⟩ := aggregateTo_ok h.conforms hd hs hk hf
    (fits (presents_refl g input h.conforms))
  obtain ⟨y, hy, hyconf, hyall, hyrows⟩ := aggregateTo_ok h.conforms_held hd hs hk hf (fits h.presents)
  have hkeys : ∀ c ∈ keys, ∃ f, m.schema.field? c = some f := mem_names_of_forall₂ hk
  have hcolumns : ∀ c ∈ columns, ∃ f, m.schema.field? c = some f ∧ func.takes f.type = true := by
    intro c hc
    obtain ⟨f, -, f', hf', htakes, -⟩ := exists_of_mem_left hf hc
    exact ⟨f', hf', htakes⟩
  have hsame : x.SameRows y := by
    refine .of_rows hxconf hyconf ?_
    rw [hxrows, hyrows]
    exact h.sameRows.aggregated hkeys hcolumns h.conforms h.conforms_held h.distinct.nonempty hxall hyall
  obtain ⟨r', hr', hheadings, hnumbers, hdelivery⟩ := aggregate_rows asked h.found h.holds h.conforms_held
    h.apart hk hf hne hyall
  have hholds : r'.Holds y s := by
    refine .of_rows (hs ▸ hheadings) hnumbers ?_
    rw [hdelivery, hyrows, List.map_map]
    rfl
  obtain ⟨r', hr', hholds⟩ := holds_single ⟨r', hr', hholds⟩
  refine ⟨y, ⟨x, denotes_aggregator hg hb hn hp h hxconf hx, h.presents_of_eq_ok hn
    (by simp [Op.inputs]) hx hy hsame hxconf hyconf hd.nonempty⟩, _, r', ?_, hr', hholds⟩
  rw [compound, node_eq_ok.2 hn, ok_bind]
  dsimp only
  rw [node_eq_ok.2 h.node]
  rfl

end Aggregation

end Statements

/-- **The statement of a portable node yields the rows of what the node denotes**, if the tables that it
reads hold the rows of what their nodes denote. -/
theorem statement_holds (hg : g.WellFormed) (hb : g.Based base) (hn : g.node? id = some n)
    (hst : n.op.hasStatement = true) (htable : n.op.isTable = true) (hp : g.Portable base id)
    (asked : Bool) (h : ∀ d ∈ n.op.tables, g.Held base catalog d) :
    g.Yields base catalog asked id n := by
  have reads {d : NodeId} (hd : d ∈ n.op.tables) : ∃ m t u r, g.Reads base catalog d m t u r :=
    (h d hd).reads (hp.input hn (Op.mem_inputs_of_mem_tables hd))
  have hportable := (hp.node hn).op
  have hschema := hg.hasSchema hn
  obtain ⟨k, name, op, s⟩ := n
  cases op
  case source | describe | apply | groupBy | groupProjection => cases hst
  case constant => cases htable
  case limit => exact hportable.elim
  case projection =>
    obtain ⟨m, t, u, r, hread⟩ := reads (List.mem_singleton_self _)
    exact yields_projection hg hb hn hp asked hread
  case orderBy =>
    obtain ⟨m, t, u, r, hread⟩ := reads (List.mem_singleton_self _)
    exact yields_orderBy hg hb hn hp asked hread
  case rename =>
    obtain ⟨m, t, u, r, hread⟩ := reads (List.mem_singleton_self _)
    exact yields_rename hg hb hn hp asked hread
  case selection =>
    obtain ⟨m, t, u, r, hread⟩ := reads (List.mem_singleton_self _)
    exact yields_selection hg hb hn hp asked hread
  case assign =>
    obtain ⟨m, t, u, r, hread⟩ := reads (List.mem_singleton_self _)
    exact yields_assign hg hb hn hp asked hread
  case aggregator =>
    obtain ⟨m, t, u, r, hread⟩ := reads (List.mem_singleton_self _)
    exact yields_aggregator hg hb hn hp asked hread
  case join =>
    obtain ⟨m, t, u, r, hread⟩ := reads List.mem_cons_self
    obtain ⟨m', t', u', r', hread'⟩ := reads (List.mem_cons_of_mem _ (List.mem_singleton_self _))
    exact yields_join hg hb hn hp asked hread hread'
  case union => exact yields_union hg hb hn hp asked fun d hd => reads hd
  case criterion owner c =>
    obtain ⟨m, t, u, r, hread⟩ := reads (List.mem_singleton_self _)
    obtain ⟨⟨column, rfl⟩, -⟩ := hschema
    refine yields_expression hg hb hn rfl (by simp [Op.inputs, Op.sources]) rfl rfl (fun _ => rfl) rfl hp
      (fun e he => ?_) asked hread
    rw [compound, node_eq_ok.2 hn, ok_bind]
    dsimp only
    rw [node_eq_ok.2 hread.node, he]
    rfl
  case arithmetic owner e =>
    obtain ⟨m, t, u, r, hread⟩ := reads (List.mem_singleton_self _)
    obtain ⟨column, type, rfl, -⟩ := hschema
    refine yields_expression hg hb hn rfl (by simp [Op.inputs, Op.sources]) rfl rfl (fun _ => rfl) rfl hp
      (fun e he => ?_) asked hread
    rw [compound, node_eq_ok.2 hn, ok_bind]
    dsimp only
    rw [node_eq_ok.2 hread.node, he]
    rfl

end Graph
end LazyQuery
