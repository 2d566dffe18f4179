import LazyQuery.Proofs.Graph.Construction
import LazyQuery.Proofs.Table.Errors

/-!
# What an evaluation yields

`Graph.Evaluates` says, operation by operation, what an evaluation with an answer has read and made of
it (`evaluates_of_evaluate`); facts about results are read off it.
-/

set_option autoImplicit false

namespace LazyQuery.Graph

variable {g : Graph} {fetch : Fetch} {d id : NodeId} {n : Node} {v : Result} {t : Table}

/-! ## Inputs -/

theorem liftFrame_eq_ok {α : Type} {x : Except FrameError α} {a : α} :
    (liftM x : Except EngineError α) = .ok a ↔ x = .ok a := mapError_eq_ok

theorem liftNode_eq_ok {n : Node} :
    (liftM (g.node d) : Except EngineError Node) = .ok n ↔ g.node? d = some n :=
  mapError_eq_ok.trans node_eq_ok

theorem inputTable_eq_ok : g.inputTable fetch d = .ok t ↔ ∃ m w, g.node? d = some m ∧
    fetch d = .ok w ∧ w.toTable m.columns = .ok t := by
  simp only [inputTable, inputValue, bind_eq_ok, liftNode_eq_ok, liftFrame_eq_ok]
  constructor
  · rintro ⟨p, ⟨w, hw, m, hm, hp⟩, ht⟩
    obtain rfl := Except.ok.inj hp
    exact ⟨m, w, hm, hw, ht⟩
  · rintro ⟨m, w, hm, hw, ht⟩
    exact ⟨_, ⟨w, hw, m, hm, rfl⟩, ht⟩

/-- A union stacks the tables of its inputs. -/
theorem evaluate_union_eq_ok {inputs : List NodeId} {columns : List String} {v : Result}
    (hv : (do
      let results ← inputs.mapM (g.inputValue fetch)
      let tables ← results.mapM fun x => liftM (x.1.toTable x.2)
      let u ← liftM (Table.concat tables columns)
      pure (.table u) : Except EngineError Result) = .ok v) :
    ∃ tables, List.Forall₂ (fun d t => g.inputTable fetch d = .ok t) inputs tables ∧
      ∃ u, Table.concat tables columns = .ok u ∧ v = .table u := by
  obtain ⟨results, hresults, hrest⟩ := bind_eq_ok.1 hv
  obtain ⟨tables, htables, hstack⟩ := bind_eq_ok.1 hrest
  obtain ⟨u, hu, hvalue⟩ := bind_eq_ok.1 hstack
  refine ⟨tables, ?_, u, liftFrame_eq_ok.1 hu, (Except.ok.inj hvalue).symm⟩
  replace hresults := mapM_eq_ok.1 hresults
  replace htables := mapM_eq_ok.1 htables
  clear hv hrest hstack hu hvalue
  induction hresults generalizing tables with
  | nil =>
    cases htables
    exact .nil
  | cons hr _ ih =>
    obtain ⟨⟩ | ⟨ht, htables⟩ := htables
    exact .cons (bind_eq_ok.2 ⟨_, hr, ht⟩) (ih _ htables)

/-! ## Evaluations -/

/-- The result of a node, made of the inputs as tables and the values of operands. -/
def Evaluates (g : Graph) (fetch : Fetch) (n : Node) (v : Result) : Prop :=
  match n.op with
  | .source | .groupBy _ _ | .groupProjection _ _ _ _ => False
  | .constant c => v = .scalar c
  | .criterion owner c => ∃ t values, g.inputTable fetch owner = .ok t ∧
    c.values (g.operandValues fetch t.rowCount) = .ok values ∧ n.expressionTable values = .ok v
  | .arithmetic owner e => ∃ t values, g.inputTable fetch owner = .ok t ∧
    e.values (g.operandValues fetch t.rowCount) = .ok values ∧ n.expressionTable values = .ok v
  | .projection source columns distinct => ∃ t selected u, g.inputTable fetch source = .ok t ∧
    t.select columns = .ok selected ∧
      (if distinct then selected.dropDuplicates = .ok u else u = selected) ∧ v = .table u
  | .selection source criterion => ∃ t mask u, g.inputTable fetch source = .ok t ∧
    g.operandValues fetch t.rowCount criterion = .ok mask ∧ t.filter mask = .ok u ∧ v = .table u
  | .join left right leftOn rightOn how layout => ∃ l r u, g.inputTable fetch left = .ok l ∧
    g.inputTable fetch right = .ok r ∧ l.join r leftOn rightOn how layout = .ok u ∧ v = .table u
  | .union inputs => ∃ tables u, List.Forall₂ (fun d t => g.inputTable fetch d = .ok t) inputs tables ∧
    Table.concat tables n.columns = .ok u ∧ v = .table u
  | .orderBy source keys => ∃ t u, g.inputTable fetch source = .ok t ∧ t.sortValues keys = .ok u ∧
    v = .table u
  | .limit source k => ∃ t, g.inputTable fetch source = .ok t ∧ v = .table (t.limit k)
  | .aggregator _ func source keys columns => ∃ t u, g.inputTable fetch source = .ok t ∧
    if keys = [] then t.aggregateTable func columns = .ok u ∧ v = .collapse u
    else t.aggregateGroups keys columns func = .ok u ∧ v = .table u
  | .rename source mapping => ∃ t u, g.inputTable fetch source = .ok t ∧ t.rename mapping = .ok u ∧
    v = .table u
  | .assign source column value => ∃ t values u, g.inputTable fetch source = .ok t ∧
    g.operandValues fetch t.rowCount value = .ok values ∧ t.assignColumn column values = .ok u ∧
      v = .table u
  | .describe source => ∃ t u, g.inputTable fetch source = .ok t ∧ Describe.describe t = .ok u ∧
    v = .table u
  | .apply source name func => ∃ t u, g.inputTable fetch source = .ok t ∧ n.applied name func t = .ok u ∧
    v = .table u

theorem evaluates_of_evaluate (hn : g.node? id = some n) (hv : g.evaluate fetch id = .ok v) :
    g.Evaluates fetch n v := by
  rw [evaluate, liftNode_eq_ok.2 hn, ok_bind] at hv
  have table {x : Except FrameError Table}
      (hv : (do pure (.table (← x)) : Except EngineError Result) = .ok v) :
      ∃ u, x = .ok u ∧ v = .table u := by
    obtain ⟨u, hu, hv⟩ := bind_eq_ok.1 hv
    exact ⟨u, liftFrame_eq_ok.1 hu, (Except.ok.inj hv).symm⟩
  obtain ⟨i, name, op, schema⟩ := n
  cases op <;> dsimp only [Evaluates] at hv ⊢
  case source | groupBy | groupProjection => cases hv
  case constant => exact (Except.ok.inj hv).symm
  case union =>
    obtain ⟨tables, htables, u, hu⟩ := evaluate_union_eq_ok hv
    exact ⟨tables, u, htables, hu⟩
  case join =>
    obtain ⟨l, hl, hv⟩ := bind_eq_ok.1 hv
    obtain ⟨r, hr, hv⟩ := bind_eq_ok.1 hv
    obtain ⟨left, hleft, hv⟩ := bind_eq_ok.1 hv
    obtain ⟨right, hright, hv⟩ := bind_eq_ok.1 hv
    obtain ⟨u, hu⟩ := table hv
    exact ⟨left, right, u, bind_eq_ok.2 ⟨l, hl, hleft⟩, bind_eq_ok.2 ⟨r, hr, hright⟩, hu⟩
  all_goals
    replace hv := bind_eq_ok.1 hv
    obtain ⟨t, ht, hv⟩ := hv
  case criterion | arithmetic =>
    obtain ⟨values, hvalues, hv⟩ := bind_eq_ok.1 hv
    exact ⟨t, values, ht, hvalues, hv⟩
  case projection columns distinct =>
    obtain ⟨selected, hselect, hv⟩ := bind_eq_ok.1 hv
    replace hselect := liftFrame_eq_ok.1 hselect
    cases distinct with
    | false => exact ⟨t, selected, selected, ht, hselect, rfl, (Except.ok.inj hv).symm⟩
    | true =>
      obtain ⟨u, hu⟩ := table hv
      exact ⟨t, selected, u, ht, hselect, hu⟩
  case selection | assign =>
    obtain ⟨values, hvalues, hv⟩ := bind_eq_ok.1 hv
    obtain ⟨u, hu⟩ := table hv
    exact ⟨t, values, u, ht, hvalues, hu⟩
  case orderBy | rename | describe =>
    obtain ⟨u, hu⟩ := table hv
    exact ⟨t, u, ht, hu⟩
  case limit => exact ⟨t, ht, (Except.ok.inj hv).symm⟩
  case aggregator keys columns =>
    cases keys with
    | nil =>
      obtain ⟨u, hu, hv⟩ := bind_eq_ok.1 hv
      exact ⟨t, u, ht, liftFrame_eq_ok.1 hu, (Except.ok.inj hv).symm⟩
    | cons =>
      obtain ⟨u, hu⟩ := table hv
      exact ⟨t, u, ht, hu⟩
  case apply =>
    obtain ⟨u, hu, hv⟩ := bind_eq_ok.1 hv
    exact ⟨t, u, ht, mapError_eq_ok.1 hu, (Except.ok.inj hv).symm⟩

end LazyQuery.Graph
