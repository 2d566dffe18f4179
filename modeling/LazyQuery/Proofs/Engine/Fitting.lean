import LazyQuery.Proofs.Engine.InMemory
import LazyQuery.Proofs.Graph.Columns
import LazyQuery.Proofs.Table.Filled

/-!
# Results fit the schemas of their nodes

The schema of a node is worked out when the node is added, its result when it is computed. The two are
written separately, and they agree: a result has the columns of its node, in order, and null stands only
where the node allows it.

* `evaluate_fits` is about one evaluation, with one case for each operation. Supplied functions are
  taken at their word (`Node.SuppliesFilled`).
* `InMemory.fits` is about all results that are computed in memory.

Types are another matter, see `evaluate_declared_iff`.
-/

set_option autoImplicit false

namespace LazyQuery

namespace Node

/-- The result, as a table, has columns of one length, which are those of the node, and null only where
the node allows it. -/
def Fits (n : Node) (w : Result) : Prop :=
  ∃ t, w.toTable n.columns = .ok t ∧ t.Level ∧ t.Fits n.schema

/-- If the node is a supplied function that yields the columns it declares, then it yields no null in
those that it declares without. -/
def SuppliesFilled (n : Node) : Prop :=
  ∀ source name func, n.op = .apply source name func →
    ∀ t u, func t = .ok u → u.names = n.columns → u.Filled n.schema

end Node

namespace Graph

variable {g : Graph} {fetch : Fetch} {d id : NodeId} {n : Node} {s : Schema} {t : Table} {v w : Result}

/-- Whatever is fetched of a node fits the node. -/
def FetchesFitting (g : Graph) (fetch : Fetch) (d : NodeId) : Prop :=
  ∀ m w, g.node? d = some m → fetch d = .ok w → m.Fits w

/-- An input as a table fits the input. -/
theorem FetchesFitting.table (h : g.FetchesFitting fetch d) (ht : g.inputTable fetch d = .ok t)
    (hs : g.schema? d = some s) : t.Level ∧ t.Fits s := by
  obtain ⟨m, w, hm, hw, ht⟩ := inputTable_eq_ok.1 ht
  obtain ⟨u, hu, hfits⟩ := h m w hm hw
  obtain rfl := Except.ok.inj (ht.symm.trans hu)
  exact schema_eq hs hm ▸ hfits

theorem FetchesFitting.obeys (h : g.FetchesFitting fetch d) (ht : g.inputTable fetch d = .ok t)
    (hs : g.schema? d = some s) : t.Obeys .filled s := Table.fits_iff_obeys.1 (h.table ht hs).2

/-- What is read in a row of an input may stand in its column. -/
theorem FetchesFitting.reads (h : g.FetchesFitting fetch d) (ht : g.inputTable fetch d = .ok t)
    (hs : g.schema? d = some s) : ∀ i, i < t.rowCount → t.Reads .filled i :=
  fun _ hi => (h.table ht hs).1.reads hi

/-- A column of one name in which nulls are allowed is a table that fits. -/
theorem expressionTable_fits {name : String} {type : DataType}
    (hs : n.schema = ⟨[⟨name, type, true⟩]⟩) {values : List Scalar}
    (hv : n.expressionTable values = .ok v) :
    ∃ t, v.toTable n.columns = .ok t ∧ t.Fits n.schema := by
  rw [Node.expressionTable, Node.columns, hs] at hv
  obtain rfl := Except.ok.inj hv
  refine ⟨_, rfl, hs ▸ Table.fits_iff_obeys.2 (Table.obeys_of_columns (.cons ⟨rfl, ?_⟩ .nil) ?_)⟩
  · exact fun _ _ hnull => by cases hnull
  · exact List.nodup_singleton _

/-- What a supplied function yields keeps its nulls where they are when it is given its types. -/
theorem applied_fits {source : NodeId} {name : String} {func : TableFn} {u : Table}
    (hop : n.op = .apply source name func) (hn : n.SuppliesFilled)
    (hs : firstRepeated [] n.schema.names = none) (hu : n.applied name func t = .ok u) :
    u.Fits n.schema := by
  obtain ⟨out, hout, h⟩ := bind_eq_ok.1 hu
  simp only [throw_eq_error, error_bind, ite_error_eq_ok, ne_eq, not_not] at h
  obtain ⟨hnames, h⟩ := h
  obtain rfl := Except.ok.inj h
  exact ⟨(applied_declared hs hu).toHasColumns, (hn source name func hop t out hout hnames).coerce _⟩

/-- **Schemas of nodes describe their results.** Of inputs that fit their nodes, whatever node of a graph
that constructors built yields a result that can be shown as a table, and the table has the columns of the
node, in order, and no null in a column that the node declares without. -/
theorem evaluate_fits (hg : g.Constructed) (hn : g.node? id = some n) (hf : n.SuppliesFilled)
    (h : ∀ d ∈ n.op.reads, g.FetchesFitting fetch d) (hv : g.evaluate fetch id = .ok v) :
    ∃ t, v.toTable n.columns = .ok t ∧ t.Fits n.schema := by
  have hg := hg.wellFormed
  have hs := hg.hasSchema hn
  have hv := evaluates_of_evaluate hn hv
  have obeys {u : Table} (hu : u.Obeys .filled n.schema) :
      ∃ t, (Result.table u).toTable n.columns = .ok t ∧ t.Fits n.schema :=
    ⟨u, rfl, Table.fits_iff_obeys.2 hu⟩
  obtain ⟨i, name, op, schema⟩ := n
  cases op <;> simp only [Evaluates, Op.HasSchema, Op.reads, Op.tables, Op.sources, Op.evalSources,
    List.append_nil, List.mem_append, List.mem_cons, List.not_mem_nil, or_false, forall_eq,
    forall_eq_or_imp] at hs h hv
  case constant c =>
    subst hv hs
    refine ⟨⟨[⟨constantColumn, [c]⟩]⟩, Table.build_eq_ok.2 ⟨rfl, ?_⟩, Table.fits_iff_obeys.2 ?_⟩
    · exact ⟨by simp [Table.rowCount], List.nodup_singleton _⟩
    · refine Table.obeys_of_columns (.cons ⟨rfl, fun v hv hnull => ?_⟩ .nil) (List.nodup_singleton _)
      obtain rfl := List.mem_singleton.1 hv
      exact hnull
  case criterion =>
    obtain ⟨⟨name, rfl⟩, -⟩ := hs
    obtain ⟨t, values, -, -, hv⟩ := hv
    exact expressionTable_fits rfl hv
  case arithmetic =>
    obtain ⟨name, type, rfl, -⟩ := hs
    obtain ⟨t, values, -, -, hv⟩ := hv
    exact expressionTable_fits rfl hv
  case projection source columns distinct =>
    obtain ⟨-, -, s, hsource, hproject⟩ := hs
    obtain ⟨t, selected, u, ht, hselect, hu, rfl⟩ := hv
    have hselected := (h.obeys ht hsource).select hproject hselect
    cases distinct with
    | false => exact obeys (hu ▸ hselected)
    | true =>
      have hreads : ∀ i, i < selected.rowCount → selected.Reads .filled i := fun i =>
        (Table.valid_select hselect).level.reads
      exact obeys (hselected.dropDuplicates hreads hu)
  case selection source criterion =>
    obtain ⟨t, mask, u, ht, -, hu, rfl⟩ := hv
    exact obeys ((h.1.obeys ht hs).filter (h.1.reads ht hs) hu)
  case join left right leftOn rightOn how layout =>
    obtain ⟨rfl, s, s', hleft, hright, hmake⟩ := hs
    obtain ⟨l, r, u, hl, hr, hu, rfl⟩ := hv
    exact obeys (.join CellLaw.lenient_filled (h.1.obeys hl hleft) (h.2.obeys hr hright)
      (h.1.reads hl hleft) (h.2.reads hr hright) hmake hu)
  case union inputs =>
    obtain ⟨first, rest, s, rfl, hfirst, hwiden⟩ := hs
    obtain ⟨tables, u, htables, hu, rfl⟩ := hv
    refine obeys (Table.concat_obeys hu fun t ht => ?_)
    obtain ⟨d, hd, ht⟩ := exists_of_mem_right htables ht
    obtain ⟨m, w, hm, -, -⟩ := inputTable_eq_ok.1 ht
    have hallows : schema.AllowsNullsOf m.schema := by
      obtain ⟨t, -, ht⟩ := exists_of_mem_left htables List.mem_cons_self
      have hnodup := ((h first List.mem_cons_self).obeys ht hfirst).nodup
      obtain ⟨hallows, hrest⟩ := allowsNullsOf_widenBy hnodup hwiden
      rcases List.mem_cons.1 hd with rfl | hd
      · exact schema_eq hfirst hm ▸ hallows
      · exact hrest d hd m hm
    refine ⟨m.schema, (h d hd).obeys ht (schema?_eq_some hm), fun f hf e he v hv hnull => hv ?_⟩
    exact Bool.eq_false_iff.2 fun htrue => by simp [hallows f hf e he htrue] at hnull
  case orderBy source keys =>
    obtain ⟨-, hsource, -⟩ := hs
    obtain ⟨t, u, ht, hu, rfl⟩ := hv
    exact obeys ((h.obeys ht hsource).sortValues (h.reads ht hsource) hu)
  case limit source k =>
    obtain ⟨t, ht, rfl⟩ := hv
    exact obeys ((h.obeys ht hs).limit (h.reads ht hs) k)
  case aggregator source func input keys columns =>
    obtain ⟨hne, s, keyFields, fields, hinput, hkeys, hfields, rfl⟩ := hs
    obtain ⟨t, u, ht, hv⟩ := hv
    obtain ⟨hlevel, hfits⟩ := h.table ht hinput
    split at hv
    · obtain ⟨hu, rfl⟩ := hv
      subst keys
      obtain rfl := Except.ok.inj hkeys
      have hfits := Table.fits_aggregateTable hfields hu
      have hshown := Table.toTable_collapse_aggregates hu hne
      rw [hfits.names] at hshown
      exact ⟨u, hshown, hfits⟩
    · obtain ⟨hu, rfl⟩ := hv
      exact ⟨u, rfl, hfits.aggregateGroups hlevel ‹_› hkeys hfields hu⟩
  case rename source mapping =>
    obtain ⟨-, s, hsource, -, rfl⟩ := hs
    obtain ⟨t, u, ht, hu, rfl⟩ := hv
    exact obeys ((h.obeys ht hsource).rename hu)
  case assign source column value =>
    obtain ⟨s, f, hsource, hfield, rfl⟩ := hs
    obtain ⟨t, values, u, ht, hvalues, hu, rfl⟩ := hv
    have hcells : ∀ v ∈ values, CellLaw.filled f.type f.nullable v :=
      operandValues_obey (fun _ h => h) hg (fun _ _ => h.2.obeys) hvalues hfield
    exact obeys ((h.1.obeys ht hsource).assignColumn hcells hu)
  case describe source =>
    obtain ⟨s, hsource, rfl⟩ := hs
    obtain ⟨t, u, ht, hu, rfl⟩ := hv
    exact ⟨u, rfl, (h.table ht hsource).2.describe hu⟩
  case apply source name func =>
    obtain ⟨t, u, -, hu, rfl⟩ := hv
    exact ⟨u, rfl, applied_fits rfl hf hs.2 hu⟩

/-- Two tables, of which the right one has no row for the second key of the left one, joined so that all
rows on the left are kept. -/
def outerJoin : Graph :=
  ⟨"s", #[⟨0, "ts_0", .source, ⟨[⟨"k", .int64, false⟩]⟩⟩,
    ⟨1, "ts_1", .source, ⟨[⟨"k", .int64, false⟩, ⟨"v", .int64, false⟩]⟩⟩,
    ⟨2, "ts_2", .join 0 1 ["k"] ["k"] .left
        ⟨[("k", "k")], [("v", "v")], ⟨[⟨"k", .int64, false⟩, ⟨"v", .int64, true⟩]⟩⟩,
      ⟨[⟨"k", .int64, false⟩, ⟨"v", .int64, true⟩]⟩⟩], #[[2], [2], []]⟩

theorem constructed_outerJoin : outerJoin.Constructed :=
  .add (r := (2, outerJoin)) (.add (.add (.empty "s") (.source ⟨[⟨"k", .int64, false⟩]⟩) rfl)
    (.source ⟨[⟨"k", .int64, false⟩, ⟨"v", .int64, false⟩]⟩) rfl) (.join 0 1 ["k"] ["k"] .left) rfl

/-- The row without a match has null in the column of the right table, where the join allows it. -/
theorem evaluate_fits_outerJoin : ∃ (fetch : Fetch) (v : Result) (t : Table),
    outerJoin.evaluate fetch 2 = .ok v ∧ v.toTable ["k", "v"] = .ok t ∧
      t.Fits ⟨[⟨"k", .int64, false⟩, ⟨"v", .int64, true⟩]⟩ ∧
        t.columns.map (·.values) = [[.int 1, .int 2], [.int 5, .null]] := by
  let left : Table := ⟨[⟨"k", [.int 1, .int 2]⟩]⟩
  let right : Table := ⟨[⟨"k", [.int 1]⟩, ⟨"v", [.int 5]⟩]⟩
  let fetch : Fetch := fun d => .ok (.table (if d = 0 then left else right))
  let joined : Table := ⟨[⟨"k", [.int 1, .int 2]⟩, ⟨"v", [.int 5, .null]⟩]⟩
  have hn : outerJoin.node? 2 = some _ := rfl
  have hfits : ∀ d ∈ [0, 1], outerJoin.FetchesFitting fetch d := by
    intro d hd m w hm hw
    obtain rfl := Except.ok.inj hw
    have hd : d = 0 ∨ d = 1 := by simpa using hd
    rcases hd with rfl | rfl <;> obtain rfl := Option.some.inj hm
    · have hleft : ∀ c ∈ left.columns, ∀ v ∈ c.values, v.isNull = false := by decide
      exact ⟨left, rfl, Table.level_singleton _, ⟨rfl, by decide⟩, fun c hc _ _ _ _ => hleft c hc⟩
    · have hright : ∀ c ∈ right.columns, ∀ v ∈ c.values, v.isNull = false := by decide
      exact ⟨right, rfl, Table.level_of_lengths 1 (by decide), ⟨rfl, by decide⟩,
        fun c hc _ _ _ _ => hright c hc⟩
  have hv : outerJoin.evaluate fetch 2 = .ok (.table joined) := by decide +kernel
  obtain ⟨t, ht, hfits⟩ := evaluate_fits constructed_outerJoin hn nofun hfits hv
  exact ⟨fetch, _, t, hv, ht, hfits, by obtain rfl := Except.ok.inj ht; rfl⟩

/-- What evaluations in memory start from: base tables fit their nodes, and supplied functions yield level
tables without nulls where they declare none. -/
structure SuppliesFitting (g : Graph) (fetch : Fetch) : Prop extends g.SuppliesLevel fetch where
  fits : ∀ {i n w}, g.node? i = some n → n.op.isSource = true → fetch i = .ok w → n.Fits w
  filled : ∀ {i n}, g.node? i = some n → n.SuppliesFilled

/-- **Every result that is computed in memory fits its node.** -/
theorem InMemory.fits (h : g.InMemory fetch) (hg : g.Constructed) (hs : g.SuppliesFitting fetch)
    (hn : g.node? id = some n) (hv : fetch id = .ok v) : n.Fits v := by
  refine h.induction hg.wellFormed (P := Node.Fits) hs.fits (fun {i n v} hn hreads hv => ?_) hn hv
  have hfits : ∀ d ∈ n.op.reads, g.FetchesFitting fetch d := fun d hd m w => hreads d hd m w
  obtain ⟨t, ht, hfit⟩ := evaluate_fits hg hn (hs.filled hn) hfits hv
  have hlevel := evaluate_level hn (hs.function hn) (fun d hd w hw => ?_) hv
  · exact ⟨t, ht, Result.toTable_level hlevel ht, hfit⟩
  · obtain ⟨m, hm⟩ := node?_isSome ((hg.wellFormed.linked hn).input_lt (Op.mem_inputs_of_mem_reads hd))
    exact h.level hg.wellFormed hs.toSuppliesLevel hm hw

end Graph
end LazyQuery
