import LazyQuery.Proofs.Sql.Compile
import LazyQuery.Proofs.Graph.Topological

/-!
# Statements of checked nodes

Three walks through the ancestors of a node prepare its table: the check for computability, the loading
of what the store lacks and memory has, and the writing of the statement. The first two start from the
same view, and the last one from the view that the loading leaves, `View.loaded`.

* `Required.of_loaded` says that the last walk goes nowhere else: a table stops it where a result in
  memory has stopped the first.
* `supplied_of_check` says that of all that it meets without a table the check has found that it can be
  written into the statement.

Hence `query_of_check`: after a check that succeeds the statement can be written, and it is
self-contained.
-/

set_option autoImplicit false

namespace LazyQuery

open Sql

/-- The view once those nodes of a list that are in memory have been loaded into the store. -/
def View.loaded (v : View) (order : List NodeId) : View :=
  { v with relational := fun d => v.relational d || (v.inMemory d && order.contains d) }

namespace Graph

variable {g : Graph} {v : View} {id d : NodeId} {order : List NodeId}

/-- Groupings are not loaded, since none of them is in memory. -/
theorem SkipsGroupings.loaded (hv : g.SkipsGroupings v) : g.SkipsGroupings (v.loaded order) := by
  intro i n hn hc
  obtain ⟨hm, hr⟩ := hv hn hc
  exact ⟨hm, by simp [View.loaded, hm, hr]⟩

/-- After the loading a walk meets nothing that it has not met before. -/
theorem Required.of_loaded (h : g.Required .relational (v.loaded order) id d) :
    g.Required .relational v id d := by
  refine h.mono (fun c hc => ?_) fun c hc => .inr hc
  change v.relational c = true at hc
  simp [View.materialized, View.loaded, hc]

/-- What has no table after the loading is a grouping, or can be written as a statement and is not in
memory, if the check has succeeded. -/
theorem supplied_of_check (hg : g.WellFormed) (ho : g.IsOrderOf .relational v id order)
    (hcomputable : ∀ d ∈ order, ∃ n, g.node? d = some n ∧ computable n .relational v [] = true)
    (hd : g.Required .relational (v.loaded order) id d) (hr : (v.loaded order).relational d = false) :
    g.Supplied (v.loaded order) d := by
  rw [View.loaded, Bool.or_eq_false_iff, Bool.and_eq_false_iff] at hr
  obtain ⟨hrel, hload⟩ := hr
  have hmem : d ∈ order := (ho.mem_iff d).2 ⟨hd.of_loaded, hrel⟩
  have hm : v.inMemory d = false := hload.resolve_right (by simp [hmem])
  obtain ⟨n, hn, hc⟩ := hcomputable d hmem
  refine ⟨n, hn, ?_⟩
  cases hcont : n.op.isContainer with
  | true => exact .inl rfl
  | false =>
    rw [← hg.id_eq hn] at hrel hm
    have hst := hasStatement_of_computable hc hrel hm hcont
    rw [hg.id_eq hn] at hm
    exact .inr (.inr ⟨hm, hst⟩)

/-- **A check that succeeds means that the statement can be written.** Once those nodes of the order that
are in memory have been loaded into the store, the query of the node exists, and all that it reads are
tables of the store and results that it has named before. -/
theorem query_of_check (hg : g.Constructed) (hv : g.SkipsGroupings v) {n : Node}
    (hn : g.node? id = some n) (hst : n.op.hasStatement = true)
    (hcheck : g.checkComputable id .relational v = .ok ()) :
    ∃ order q, g.dependencyOrder id .relational v = .ok order ∧
      g.query id (v.loaded order) = .ok q ∧
      readsOnly (g.isStored (v.loaded order)) q.named q.body = true := by
  have hwf := hg.wellFormed
  obtain ⟨order, horder, ho⟩ := dependencyOrder_spec hwf hn .relational v
  have hcomputable := fun d hd => computable_of_check hcheck horder d (List.mem_append_left _ hd)
  obtain ⟨q, hq, -, hreads, -⟩ := query_spec hwf hv.loaded hn hst fun d hd hr =>
    supplied_of_check hwf ho hcomputable hd hr
  refine ⟨order, q, horder, hq, hreads _ fun d hd hr => ?_⟩
  rw [isStored_tableName (Nat.lt_trans hd (lt_size_of_node? hn)), hr]

/-- The union of a limit in memory and one that has to be written: the first is loaded, and the
statement names the second. -/
theorem query_of_check_sharedLimits : ∃ q,
    sharedLimits.checkComputable 3 .relational secondInMemory = .ok () ∧
      sharedLimits.query 3 (secondInMemory.loaded [2, 1]) = .ok q ∧
      readsOnly (sharedLimits.isStored (secondInMemory.loaded [2, 1])) q.named q.body = true := by
  have hskip : sharedLimits.SkipsGroupings secondInMemory := by
    intro i n hn hc
    rcases i with _ | _ | _ | _ | i <;> simp [node?, sharedLimits] at hn <;> subst hn <;> cases hc
  have hn : sharedLimits.node? 3 = some _ := rfl
  have hcheck : sharedLimits.checkComputable 3 .relational secondInMemory = .ok () := rfl
  obtain ⟨order, q, horder, hq, hreads⟩ :=
    query_of_check constructed_sharedLimits hskip hn rfl hcheck
  rw [dependencyOrder_sharedLimits, Except.ok.injEq] at horder
  subst horder
  exact ⟨q, hcheck, hq, hreads⟩

end Graph
end LazyQuery
