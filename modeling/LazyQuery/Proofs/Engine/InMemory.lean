import LazyQuery.Proofs.Engine.Declared
import LazyQuery.Proofs.Engine.Denotation

/-!
# Evaluations in memory

Where the results of inputs come from is left open by `Graph.evaluate`. Results are computed *in memory*
if each of them, unless it is a base table, is the evaluation of its node from what is fetched of the
nodes that it reads (`Graph.InMemory`). Plain recursion over the graph computes them so
(`inMemory_denote`), and so does any cache of such results.

What one evaluation keeps, all of them keep (`InMemory.induction`). The first such thing is that the
columns of a table are of one length: `evaluate_level` is the step, `InMemory.level` the run.
-/

set_option autoImplicit false

namespace LazyQuery

/-- A supplied function, if that is what the node is, yields level tables. -/
def Node.SuppliesLevel (n : Node) : Prop :=
  ∀ source name func, n.op = .apply source name func → ∀ t u, func t = .ok u → u.Level

namespace Graph

variable {g : Graph} {fetch : Fetch} {d id : NodeId} {n : Node} {v w : Result} {t : Table}

/-! ## Evaluations from evaluations -/

/-- Whatever is fetched of a node that is no base table is its evaluation from what is fetched. -/
def InMemory (g : Graph) (fetch : Fetch) : Prop :=
  ∀ {d n w}, g.node? d = some n → n.op.isSource = false → fetch d = .ok w → g.evaluate fetch d = .ok w

/-- What holds of base tables, and of an evaluation if it holds of the results that it reads, holds of
all results. The induction is on the number of the node, which reads earlier ones. -/
theorem InMemory.induction (h : g.InMemory fetch) (hg : g.WellFormed) {P : Node → Result → Prop}
    (base : ∀ {i n v}, g.node? i = some n → n.op.isSource = true → fetch i = .ok v → P n v)
    (step : ∀ {i n v}, g.node? i = some n →
      (∀ d ∈ n.op.reads, ∀ m w, g.node? d = some m → fetch d = .ok w → P m w) →
      g.evaluate fetch i = .ok v → P n v)
    (hn : g.node? id = some n) (hv : fetch id = .ok v) : P n v := by
  induction id using Nat.strongRecOn generalizing n v with
  | ind id ih =>
    cases hs : n.op.isSource with
    | true => exact base hn hs hv
    | false =>
      refine step hn (fun d hd m w hm hw => ?_) (h hn hs hv)
      exact ih d (hg.input_lt hn d (Op.mem_inputs_of_mem_reads hd)) hm hw

/-- Plain recursion over base tables evaluates in memory. -/
theorem inMemory_denote {base : BaseTables} (hg : g.WellFormed)
    (hb : ∀ i t, base i = some t → g.Has (·.isSource = true) i) : g.InMemory (g.denote base) := by
  intro d n w hn hs hw
  have hbase : base d = none := by
    cases hbd : base d with
    | none => rfl
    | some t =>
      rw [(hb d t hbd).of_node? hn] at hs
      cases hs
  rw [denote, hbase] at hw
  refine evaluate_mono hg ((Extends.refl g).agreesTo d) hn (fun i hi _ => ?_) w hw
  rw [if_pos (hg.input_lt hn i (Op.mem_inputs_of_mem_reads hi))]
  exact Refines.refl _

/-! ## Level tables -/

theorem inputTable_level (h : ∀ w, fetch d = .ok w → w.Level) (ht : g.inputTable fetch d = .ok t) :
    t.Level := by
  obtain ⟨m, w, -, hw, ht⟩ := inputTable_eq_ok.1 ht
  exact Result.toTable_level (h w hw) ht

theorem expressionTable_level {values : List Scalar} (h : n.expressionTable values = .ok v) : v.Level := by
  rw [Node.expressionTable] at h
  split at h
  · cases h
  · obtain rfl := Except.ok.inj h
    exact Result.level_table (Table.level_singleton _)

theorem applied_level {source : NodeId} {name : String} {func : TableFn} {u : Table}
    (hop : n.op = .apply source name func) (hs : n.SuppliesLevel) (hu : n.applied name func t = .ok u) :
    u.Level := by
  obtain ⟨out, hout, hu⟩ := bind_eq_ok.1 hu
  simp only [throw_eq_error, error_bind, ite_error_eq_ok] at hu
  obtain rfl := Except.ok.inj hu.2
  exact (hs source name func hop t out hout).coerce n.schema

/-- An evaluation of level tables yields no table with columns of different lengths. -/
theorem evaluate_level (hn : g.node? id = some n) (hs : n.SuppliesLevel)
    (h : ∀ d ∈ n.op.reads, ∀ w, fetch d = .ok w → w.Level) (hv : g.evaluate fetch id = .ok v) :
    v.Level := by
  have hv := evaluates_of_evaluate hn hv
  obtain ⟨i, name, op, schema⟩ := n
  cases op <;> simp only [Evaluates, Op.reads, Op.tables, Op.sources, Op.evalSources, List.append_nil,
    List.mem_append, List.mem_cons, List.not_mem_nil, or_false, forall_eq, forall_eq_or_imp] at h hv
  case constant =>
    subst hv
    exact fun _ h => by cases h
  case criterion | arithmetic =>
    obtain ⟨t, values, -, -, hv⟩ := hv
    exact expressionTable_level hv
  case projection source columns distinct =>
    obtain ⟨t, selected, u, -, hselect, hu, rfl⟩ := hv
    refine Result.level_table ?_
    cases distinct with
    | false => exact hu ▸ (Table.valid_select hselect).level
    | true => exact Table.level_dropDuplicates hu
  case selection =>
    obtain ⟨t, mask, u, -, -, hu, rfl⟩ := hv
    exact Result.level_table (Table.level_filter hu)
  case join =>
    obtain ⟨l, r, u, -, -, hu, rfl⟩ := hv
    exact Result.level_table (Table.valid_join hu).level
  case union =>
    obtain ⟨tables, u, -, hu, rfl⟩ := hv
    exact Result.level_table (Table.valid_concat hu).level
  case orderBy =>
    obtain ⟨t, u, ht, hu, rfl⟩ := hv
    exact Result.level_table ((inputTable_level h ht).sortValues hu)
  case limit =>
    obtain ⟨t, -, rfl⟩ := hv
    exact Result.level_table (Table.level_take _ _)
  case aggregator =>
    obtain ⟨t, u, -, hv⟩ := hv
    split at hv
    · obtain ⟨hu, rfl⟩ := hv
      exact Result.level_collapse (Table.valid_aggregateTable hu).level
    · obtain ⟨hu, rfl⟩ := hv
      exact Result.level_table (Table.valid_aggregateGroups hu).level
  case rename =>
    obtain ⟨t, u, -, hu, rfl⟩ := hv
    exact Result.level_table (Table.valid_rename hu).level
  case assign =>
    obtain ⟨t, values, u, ht, -, hu, rfl⟩ := hv
    exact Result.level_table ((inputTable_level h.1 ht).assignColumn hu)
  case describe =>
    obtain ⟨t, u, -, hu, rfl⟩ := hv
    exact Result.level_table (Table.valid_describe hu).level
  case apply =>
    obtain ⟨t, u, -, hu, rfl⟩ := hv
    exact Result.level_table (applied_level rfl hs hu)

/-- Base tables and what supplied functions yield are level. -/
structure SuppliesLevel (g : Graph) (fetch : Fetch) : Prop where
  base : ∀ {i n w}, g.node? i = some n → n.op.isSource = true → fetch i = .ok w → w.Level
  function : ∀ {i n}, g.node? i = some n → n.SuppliesLevel

/-- **No result that is computed in memory is a table with columns of different lengths.** -/
theorem InMemory.level (h : g.InMemory fetch) (hg : g.WellFormed) (hs : g.SuppliesLevel fetch)
    (hn : g.node? id = some n) (hv : fetch id = .ok v) : v.Level := by
  refine h.induction hg (P := fun _ v => v.Level) hs.base (fun {i n v} hn hreads hv => ?_) hn hv
  refine evaluate_level hn (hs.function hn) (fun d hd w hw => ?_) hv
  obtain ⟨m, hm⟩ := node?_isSome ((hg.linked hn).input_lt (Op.mem_inputs_of_mem_reads hd))
  exact hreads d hd m w hm hw

end Graph
end LazyQuery
