import LazyQuery.Engine.Compute
import LazyQuery.Proofs.Engine.Denotation
import LazyQuery.Proofs.Graph.Order
import LazyQuery.Proofs.Sql.Compound
import LazyQuery.Proofs.Sql.Join
import LazyQuery.Proofs.Sql.Names
import LazyQuery.Proofs.Table.Groups
import LazyQuery.Proofs.Table.Inferred

/-!
# Nodes that mean the same in memory and in a query

A node is *portable* if its statement does what its evaluation does, as far as plain cells go and up to
the order of rows where there are joins: it is left to the store in which order the rows of a join come.

* `Op.IsPortable` leaves out operations that yield floats or texts that are computed, and those of which
  the order of rows decides.
* `Graph.Portable g base id` says that `id` and all nodes that it hangs on are portable, have columns
  that a created table keeps, and that no integer leaves its range.
* `Graph.Denotes g base id n t` says that the result of a node, by plain recursion, is this table, and
  that the table conforms to the schema of the node.
* `Graph.Represents g base id n u` says that the table has the rows of what the node denotes, in whatever
  order if the node is a join or hangs on one, and in the same order otherwise.
-/

set_option autoImplicit false

namespace LazyQuery

open Sql
open scoped Numbers

/-! ## Tables and results -/

namespace Table

variable {t : Table} {s : Schema}

/-- Cells that are coerced to what they were make the same table. -/
theorem coerce_map (ht : t.Conforms s) (hs : s.names.Nodup) (change : Scalar → Scalar)
    (h : ∀ type v, DataType.admits type v = true → Scalar.coerce type (change v) = v) :
    (Table.mk (t.columns.map fun c => ⟨c.name, c.values.map change⟩)).coerce s = t := by
  rw [coerce, List.map_map]
  refine congrArg Table.mk ((List.map_congr_left fun c hc => ?_).trans (List.map_id _))
  obtain ⟨f, hf, hconf⟩ := conforms_of_mem ht hc
  dsimp only [Function.comp, id]
  rw [hconf.name, Schema.field?_of_mem hs hf]
  have values : c.values.map (Scalar.coerce f.type ∘ change) = c.values :=
    (List.map_congr_left fun v hv => h _ _ (hconf.admits v hv)).trans (List.map_id _)
  dsimp only
  rw [List.map_map, values, ← hconf.name]

/-- Plain cells of the declared types stay as they are. -/
theorem coerce_eq (ht : t.Conforms s) (hs : s.names.Nodup) : t.coerce s = t := by
  have h := coerce_map ht hs id fun type v hv => by
    cases v <;> cases type <;>
      simp_all [Scalar.coerce, DataType.admits, Scalar.isPlain, Scalar.isNull, Scalar.dataType]
  simpa using h

/-- **A table whose columns have cells of one plain type each** conforms to the schema that it shows. -/
theorem conforms_inferSchema (ht : t.Valid)
    (h : ∀ c ∈ t.columns, ∃ type, DataType.isPlain type = true ∧
      ∀ v ∈ c.values, type.admits v = true) : t.Conforms t.inferSchema := by
  rw [Conforms, inferSchema, List.forall₂_map_right_iff]
  refine List.forall₂_same.2 fun c hc => ?_
  obtain ⟨type, hplain, hadmits⟩ := h c hc
  have hshown : ∀ v ∈ c.values, v.isNull = false → v.dataType = type := by
    intro v hv hn
    have := hadmits v hv
    cases v <;> simp_all [DataType.admits, Scalar.isNull]
  obtain hs | ⟨hs, hnull⟩ := inferType_cases hshown
  · exact ⟨rfl, by rw [hs, hplain], ht.1 c hc, fun v hv => by rw [hs]; exact hadmits v hv⟩
  · exact ⟨rfl, by rw [hs]; rfl, ht.1 c hc, fun v hv => hnull v hv ▸ DataType.admits_null _⟩

theorem conforms_coerce (ht : t.Valid)
    (h : ∀ c ∈ t.columns, ∃ type, DataType.isPlain type = true ∧
      ∀ v ∈ c.values, type.admits v = true) : (t.coerce t.inferSchema).Conforms t.inferSchema := by
  have hconf := conforms_inferSchema ht h
  rw [coerce_eq hconf (hconf.names_eq ▸ ht.2)]
  exact hconf

end Table

/-- A row that stands for itself is the table of that row again. -/
theorem Result.toTable_collapse {t : Table} {s : Schema} (ht : t.Conforms s) (hs : s.Distinct) :
    (collapse t).toTable s.names = .ok t := by
  rw [collapse]
  split
  · rfl
  · rename_i hcount
    rw [not_not] at hcount
    have hbuild : Table.build t.columns = .ok t := Table.build_ok ht hs
    have single : ∀ c ∈ t.columns, Column.mk c.name [c.values.getLastD .null] = c := by
      intro c hc
      obtain ⟨f, -, hconf⟩ := Table.conforms_of_mem ht hc
      obtain ⟨v, hv⟩ := List.length_eq_one_iff.1 (hconf.length.trans hcount)
      rw [Column.mk.injEq, hv]
      exact ⟨rfl, rfl⟩
    rw [← ht.names_eq]
    obtain ⟨columns⟩ := t
    dsimp only at single hbuild ⊢
    split
    · rename_i c
      rw [← hbuild, ← single c (List.mem_singleton_self c)]
      rfl
    · rw [← hbuild, toTable, List.map_map]
      exact congrArg Table.build ((List.map_congr_left single).trans (List.map_id _))

theorem Node.toTable_resultOf {n : Node} {t : Table} (ht : t.Conforms n.schema)
    (hs : n.schema.Distinct) : (n.resultOf t).toTable n.columns = .ok t := by
  rw [resultOf, Table.coerce_eq ht hs.nodup]
  split
  · exact Result.toTable_collapse ht hs
  · rfl

/-! ## Rows in another order -/

/-- Is it a join? -/
def Op.isJoin : Op → Bool
  | join _ _ _ _ _ _ => true
  | _ => false

namespace Graph

/-- Neither is the node a join, nor does it hang on one. -/
def IsJoinless (g : Graph) (id : NodeId) : Prop :=
  ∀ ⦃d n⦄, d = id ∨ g.DependsOn id d → g.node? d = some n → n.op.isJoin = false

/-- The second table has the rows of the first in an order in which the store may yield them: in the same
order if there are no joins. -/
def Presents (g : Graph) (id : NodeId) (t u : Table) : Prop :=
  ∃ order : List Nat, order.Perm (List.range t.rowCount) ∧ u = t.take order ∧
    (g.IsJoinless id → order = List.range t.rowCount)

variable {g g' : Graph} {id d : NodeId} {n : Node} {t u x y : Table} {s : Schema}

theorem IsJoinless.input (h : g.IsJoinless id) (hn : g.node? id = some n) (hd : d ∈ n.op.inputs) :
    g.IsJoinless d := by
  rintro c m (rfl | hc) hm
  · exact h (.inr (.input hn hd)) hm
  · exact h (.inr ((DependsOn.input hn hd).trans hc)) hm

theorem IsJoinless.of_extends (hext : g.Extends g') (h : g'.IsJoinless id) : g.IsJoinless id :=
  fun _ _ hd hn => h (hd.imp_right fun h => h.mono hext) (hext.node hn)

theorem Presents.of_extends (hext : g.Extends g') (h : g.Presents id t u) : g'.Presents id t u := by
  obtain ⟨order, horder, hu, hsame⟩ := h
  exact ⟨order, horder, hu, fun hj => hsame (hj.of_extends hext)⟩

theorem presents_refl (g : Graph) (id : NodeId) (ht : t.Conforms s) : g.Presents id t t :=
  ⟨_, .refl _, (Table.take_range fun _ hc => (Table.conforms_of_mem ht hc).choose_spec.2.length).symm,
    fun _ => rfl⟩

theorem Presents.sameRows (h : g.Presents id t u) (hc : t.columns ≠ []) : t.SameRows u := by
  obtain ⟨order, horder, rfl, -⟩ := h
  exact Table.sameRows_take hc horder

theorem Presents.conforms (h : g.Presents id t u) (ht : t.Conforms s) (hs : s.fields ≠ []) :
    u.Conforms s := by
  obtain ⟨order, -, rfl, -⟩ := h
  exact Table.conforms_take ht hs order

theorem Presents.eq (h : g.Presents id t u) (ht : t.Conforms s) (hj : g.IsJoinless id) : u = t := by
  obtain ⟨order, -, rfl, hsame⟩ := h
  rw [hsame hj]
  exact Table.take_range fun _ hc => (Table.conforms_of_mem ht hc).choose_spec.2.length

/-- Tables with the same rows, which are equal if there are no joins. -/
theorem presents_of_sameRows (h : x.SameRows y) (hx : x.Conforms s) (hy : y.Conforms s)
    (hs : s.fields ≠ []) (heq : g.IsJoinless id → y = x) : g.Presents id x y := by
  by_cases hj : g.IsJoinless id
  · rw [heq hj]
    exact presents_refl g id hx
  · obtain ⟨order, horder, hu⟩ := h.exists_order hx hy hs
    exact ⟨order, horder, hu, fun h => absurd h hj⟩

end Graph

/-! ## Portable nodes -/

/-- Is no text matched against a pattern? -/
def Criterion.isPortable : Criterion → Bool
  | like _ _ => false
  | _ => true

/-- Is nothing divided? -/
def Arithmetic.isPortable : Arithmetic → Bool
  | binary .div _ _ => false
  | _ => true

/-- Has the operation a cell for each row of the table that it belongs to? -/
def Op.isRowwise : Op → Bool
  | projection _ _ distinct => !distinct
  | _ => true

/-- Does the operation do in a statement what it does in memory, with a result of the given schema? -/
def Op.IsPortable (g : Graph) (s : Schema) : Op → Prop
  | source | projection _ _ _ | orderBy _ _ | groupBy _ _ | groupProjection _ _ _ _ | rename _ _ => True
  | constant v => v.isPlain = true
  | criterion _ c => c.isPortable = true ∧ ∀ a ∈ c.operands, g.Has (·.isRowwise = true) a
  | arithmetic _ e => e.isPortable = true ∧ ∀ a ∈ e.operands, g.Has (·.isRowwise = true) a
  | selection _ c =>
    g.Has (·.isRowwise = true) c ∧ ∀ f, g.operandField c = .ok f → f.type.isIntegral = true
  | join l r leftOn rightOn _ _ =>
    ∀ i j, g.schema? l = some i → g.schema? r = some j → List.Forall₂ (JoinsOn i j) leftOn rightOn
  | union inputs => ∀ t ∈ inputs, ∀ i, g.schema? t = some i → StacksOn s i
  | aggregator _ func _ _ _ => func.isPlain = true
  | assign _ _ v => g.Has (·.isRowwise = true) v
  | limit _ _ | describe _ | apply _ _ _ => False

/-- Does no integer leave its range, neither in a cell nor in a running sum, in whatever order the store may
yield the rows? -/
def Op.InRange (g : Graph) (base : BaseTables) (id : NodeId) : Op → Prop
  | arithmetic _ _ =>
    ∀ t, g.denote base id = .ok (.table t) → ∀ c ∈ t.columns, ∀ v ∈ c.values, v.isPlain = true
  | aggregator _ func input keys columns =>
    ∀ t u, g.inputTable (g.denote base) input = .ok t → g.Presents input t u →
      if keys = [] then u.aggregateTable func columns ≠ .error (.overflow "sum")
      else u.aggregateGroups keys columns func ≠ .error (.overflow "sum")
  | _ => True

/-- Statements over the node's table, and the statement of the node, do what is done in memory. -/
structure Node.IsPortable (g : Graph) (base : BaseTables) (id : NodeId) (n : Node) : Prop where
  op : n.op.IsPortable g n.schema
  inRange : n.op.InRange g base id
  kept : n.schema.IsKept
  nonempty : n.schema.fields ≠ []
  /-- Rows that are read back have the order of the table. -/
  ordered : ∀ c ∈ n.columns, sameName c "rowid" = false
  /-- There are numbers for all rows. -/
  countable : ∀ v, g.denote base id = .ok v → v.rowCount < 2 ^ 63
  source : n.op.isSource = true →
    ∃ t, base id = some t ∧ (t.coerce t.inferSchema).Conforms t.inferSchema

theorem Node.IsPortable.distinct {g : Graph} {base : BaseTables} {id : NodeId} {n : Node}
    (h : n.IsPortable g base id) : n.schema.Distinct :=
  ⟨h.nonempty, h.kept.apart.nodup⟩

namespace Graph

/-- A node and all nodes that it hangs on are portable. -/
def Portable (g : Graph) (base : BaseTables) (id : NodeId) : Prop :=
  ∀ ⦃d n⦄, d = id ∨ g.DependsOn id d → g.node? d = some n → n.IsPortable g base d

/-- Base tables are given for their nodes only. -/
def Based (g : Graph) (base : BaseTables) : Prop :=
  ∀ ⦃i t⦄, base i = some t →
    ∃ n, g.node? i = some n ∧ n.op.isSource = true ∧ n.schema = t.inferSchema

/-- What the node denotes is this table, which conforms to the schema of the node. -/
def Denotes (g : Graph) (base : BaseTables) (id : NodeId) (n : Node) (t : Table) : Prop :=
  t.Conforms n.schema ∧ g.denote base id = .ok (n.resultOf t)

/-- The table has the rows of what the node denotes, in an order in which the store may yield them. -/
def Represents (g : Graph) (base : BaseTables) (id : NodeId) (n : Node) (u : Table) : Prop :=
  ∃ t, g.Denotes base id n t ∧ g.Presents id t u

variable {g : Graph} {base : BaseTables} {id d : NodeId} {n : Node} {t u : Table}

theorem Portable.dependsOn (h : g.Portable base id) (hd : g.DependsOn id d) : g.Portable base d := by
  rintro c m (rfl | hc) hm
  · exact h (.inr hd) hm
  · exact h (.inr (hd.trans hc)) hm

theorem Portable.input (h : g.Portable base id) (hn : g.node? id = some n) (hd : d ∈ n.op.inputs) :
    g.Portable base d :=
  h.dependsOn (.input hn hd)

theorem portable_of_le (hg : g.WellFormed)
    (h : ∀ ⦃d n⦄, d ≤ id → g.node? d = some n → n.IsPortable g base d) : g.Portable base id :=
  fun _ _ hd hn => h (hd.elim Nat.le_of_eq fun hd => Nat.le_of_lt (hd.lt hg)) hn

theorem Portable.node (h : g.Portable base id) (hn : g.node? id = some n) : n.IsPortable g base id :=
  h (.inl rfl) hn

theorem Based.base_eq_none (h : g.Based base) (hn : g.node? id = some n) (hs : n.op.isSource = false) :
    base id = none := by
  cases hb : base id with
  | none => rfl
  | some t =>
    obtain ⟨m, hm, hsource, -⟩ := h hb
    rw [hn, Option.some.injEq] at hm
    subst hm
    rw [hs] at hsource
    cases hsource

/-- What a node denotes is its evaluation over what its inputs denote. -/
theorem denote_eq_ok (hg : g.WellFormed) (hb : g.Based base) (hn : g.node? id = some n)
    (hs : n.op.isSource = false) {v : Result} (hv : g.evaluate (g.denote base) id = .ok v) :
    g.denote base id = .ok v :=
  denote_of_evaluate hg (hb.base_eq_none hn hs) hn (fun _ _ _ => .refl _) hv

theorem Represents.conforms (h : g.Represents base id n u) (hd : n.schema.Distinct) :
    u.Conforms n.schema := by
  obtain ⟨t, ht, hu⟩ := h
  exact hu.conforms ht.1 hd.nonempty

theorem Denotes.represents (h : g.Denotes base id n t) : g.Represents base id n t :=
  ⟨t, h, presents_refl g id h.1⟩

/-- A table that an evaluation yields is denoted. -/
theorem denotes_of_evaluate (hg : g.WellFormed) (hb : g.Based base) (hn : g.node? id = some n)
    (hs : n.op.isSource = false) (hd : n.schema.Distinct) (ht : t.Conforms n.schema)
    (hr : n.resultOf t = .table (t.coerce n.schema))
    (hv : g.evaluate (g.denote base) id = .ok (.table t)) : g.Denotes base id n t := by
  refine ⟨ht, denote_eq_ok hg hb hn hs ?_⟩
  rw [hr, Table.coerce_eq ht hd.nodup, hv]

/-- A base table denotes itself. -/
theorem denotes_base (hb : g.Based base) (hn : g.node? id = some n) (hp : n.IsPortable g base id)
    {x : Table} (hx : base id = some x) : g.Denotes base id n (x.coerce n.schema) := by
  obtain ⟨m, hm, hs, hschema⟩ := hb hx
  obtain rfl := Option.some.inj (hn.symm.trans hm)
  obtain ⟨y, hy, hconf⟩ := hp.source hs
  obtain rfl := Option.some.inj (hx.symm.trans hy)
  rw [← hschema] at hconf
  refine ⟨hconf, ?_⟩
  have hresult : n.resultOf (x.coerce n.schema) = .table ((x.coerce n.schema).coerce n.schema) := by
    obtain ⟨i, name, op, schema⟩ := n
    cases op <;> first | rfl | cases hs
  rw [denote_base hx, Table.asBase, ← hschema, hresult, Table.coerce_eq hconf hp.distinct.nodup]

theorem denotes_source (hb : g.Based base) (hn : g.node? id = some n) (hp : n.IsPortable g base id)
    (hs : n.op.isSource = true) : ∃ t, g.Denotes base id n t := by
  obtain ⟨x, hx, -⟩ := hp.source hs
  exact ⟨_, denotes_base hb hn hp hx⟩

theorem Denotes.inputValue (h : g.Denotes base id n t) (hn : g.node? id = some n) :
    g.inputValue (g.denote base) id = .ok (n.resultOf t, n.columns) := by
  rw [Graph.inputValue, h.2, ok_bind, node_eq_ok.2 hn]
  rfl

theorem Denotes.inputTable (h : g.Denotes base id n t) (hn : g.node? id = some n)
    (hd : n.schema.Distinct) : g.inputTable (g.denote base) id = .ok t := by
  rw [Graph.inputTable, h.inputValue hn, ok_bind]
  dsimp only
  rw [Node.toTable_resultOf h.1 hd]
  rfl

/-! ## Larger graphs -/

section Extends

variable {g' : Graph} {base' : BaseTables}

theorem Denotes.mono (h : g.Denotes base id n t) (hg : g.WellFormed) (hext : g.Extends g')
    (hb : ∀ i, i ≤ id → base' i = base i) : g'.Denotes base' id n t :=
  ⟨h.1, denote_mono hg (hext.agreesTo id) hb _ h.2⟩

theorem Represents.mono (h : g.Represents base id n u) (hg : g.WellFormed) (hext : g.Extends g')
    (hb : ∀ i, i ≤ id → base' i = base i) : g'.Represents base' id n u := by
  obtain ⟨t, ht, hu⟩ := h
  exact ⟨t, ht.mono hg hext hb, hu.of_extends hext⟩

theorem isPortable_of_extends (hext : g.Extends g') {op : Op} {s : Schema}
    (hops : ∀ a ∈ op.inputs, a < g.size) (h : op.IsPortable g' s) : op.IsPortable g s := by
  have rowwise {a : NodeId} (ha : a < g.size) (h : g'.Has (·.isRowwise = true) a) :
      g.Has (·.isRowwise = true) a := by
    obtain ⟨m, hm⟩ := node?_isSome ha
    obtain ⟨m', hm', hrow⟩ := h
    obtain rfl := Option.some.inj ((hext.node hm).symm.trans hm')
    exact ⟨m, hm, hrow⟩
  cases op <;> simp only [Op.IsPortable, Op.inputs, Op.sources, Op.evalSources, List.mem_append,
    List.mem_cons, List.not_mem_nil, or_false, forall_eq_or_imp, forall_eq] at h hops ⊢
  case constant | aggregator => exact h
  case criterion => exact ⟨h.1, fun a ha => rowwise (hops.2 a ha) (h.2 a ha)⟩
  case arithmetic => exact ⟨h.1, fun a ha => rowwise (hops.2 a ha) (h.2 a ha)⟩
  case selection => exact ⟨rowwise hops.2 h.1, fun f hf => h.2 f (hext.operandField hf)⟩
  case join => exact fun i j hi hj => h i j (hext.schema? hi) (hext.schema? hj)
  case union => exact fun t ht i hi => h t ht i (hext.schema? hi)
  case assign => exact rowwise hops.2 h

/-- **A node that is portable in a larger graph is portable.** -/
theorem Portable.of_extends (hg : g.WellFormed) (hext : g.Extends g')
    (hb : ∀ i, i ≤ id → base' i = base i) (h : g'.Portable base' id) : g.Portable base id := by
  intro d n hd hn
  have hle : d ≤ id := hd.elim (fun h => h ▸ Nat.le_refl _) fun h => Nat.le_of_lt (h.lt hg)
  have hb : ∀ i, i ≤ d → base' i = base i := fun i hi => hb i (Nat.le_trans hi hle)
  have hden : Refines (g.denote base d) (g'.denote base' d) :=
    denote_mono hg (hext.agreesTo d) hb
  have hn' := h (hd.imp_right fun h => h.mono hext) (hext.node hn)
  refine ⟨isPortable_of_extends hext (fun a ha => ?_) hn'.op, ?_, hn'.kept, hn'.nonempty, hn'.ordered,
    fun v hv => hn'.countable v (hden v hv), fun hs => hb d (Nat.le_refl _) ▸ hn'.source hs⟩
  · exact Nat.lt_trans (hg.input_lt hn a ha) (lt_size_of_node? hn)
  · have hrange := hn'.inRange
    have hlt := hg.input_lt hn
    obtain ⟨i, name, op, s⟩ := n
    cases op
    case arithmetic => exact fun t ht => hrange t (hden _ ht)
    case aggregator source func input keys columns =>
      refine fun t u ht hu =>
        hrange t u (inputTable_refines (hext.agreesTo input) ?_ t ht) (hu.of_extends hext)
      have hinput := hlt input (by simp [Op.inputs])
      exact denote_mono hg (hext.agreesTo input) fun i hi =>
        hb i (Nat.le_trans hi (Nat.le_of_lt hinput))
    all_goals trivial

end Extends

end Graph
end LazyQuery
