import LazyQuery.Proofs.Engine.Evaluate

/-!
# What nodes denote

`Graph.denote g base id` is the result of a node by plain recursion: base tables are given, and every
other node is evaluated from the results of the nodes it reads. Nothing is cached.

A larger graph keeps it, as the recursion only goes down (`denote_mono`).
-/

set_option autoImplicit false

namespace LazyQuery

/-- The base tables that nodes were added for. -/
abbrev BaseTables := NodeId → Option Table

/-- The value of a base table: its columns have the types inferred from all their values. -/
def Table.asBase (t : Table) : Result := .table (t.coerce t.inferSchema)

namespace Graph

/-- The result of a node by plain recursion over the graph. Nodes read earlier ones only. -/
def denote (g : Graph) (base : BaseTables) (id : NodeId) : Except EngineError Result :=
  match base id with
  | some t => pure t.asBase
  | none =>
    g.evaluate
      (fun d => if d < id then g.denote base d else throw (.plan (.invariant (.unknownNode d)))) id
termination_by id

variable {g g' : Graph} {base base' : BaseTables} {id : NodeId}

theorem denote_base {t : Table} (h : base id = some t) : g.denote base id = .ok t.asBase := by
  rw [denote, h]
  rfl

/-- A node that reads denotations of tables has its own by evaluation. -/
theorem denote_of_evaluate (hg : g.WellFormed) (hb : base id = none) {n : Node}
    (hn : g.node? id = some n) {fetch : Fetch} {v : Result}
    (h : ∀ d ∈ n.op.reads, g.Has (·.isTable) d → Refines (fetch d) (g.denote base d))
    (hv : g.evaluate fetch id = .ok v) : g.denote base id = .ok v := by
  rw [denote, hb]
  refine evaluate_mono hg ((Extends.refl g).agreesTo id) hn (fun d hd ht => ?_) v hv
  rw [if_pos (hg.input_lt hn d (Op.mem_inputs_of_mem_reads hd))]
  exact h d hd ht

/-- **A denotation hangs on the graph and the base tables as far as its node only.** -/
theorem denote_mono (hg : g.WellFormed) (ha : g.AgreesTo g' id)
    (hb : ∀ i, i ≤ id → base' i = base i) : Refines (g.denote base id) (g'.denote base' id) := by
  induction id using Nat.strongRecOn with
  | ind id ih =>
    intro v hv
    rw [denote] at hv ⊢
    rw [hb id (Nat.le_refl _)]
    cases hbase : base id with
    | some t => rwa [hbase] at hv
    | none =>
      rw [hbase] at hv
      obtain ⟨n, hn, -⟩ := bind_eq_ok.1 hv
      have hn := node_eq_ok.1 (mapError_eq_ok.1 hn)
      refine evaluate_mono hg ha hn (fun d hd _ => ?_) v hv
      have hlt := hg.input_lt hn d (Op.mem_inputs_of_mem_reads hd)
      rw [if_pos hlt, if_pos hlt]
      exact ih d hlt (ha.mono (Nat.le_of_lt hlt)) fun i hi => hb i (Nat.le_trans hi (Nat.le_of_lt hlt))

end Graph
end LazyQuery
