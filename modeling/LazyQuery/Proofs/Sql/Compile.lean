import LazyQuery.Proofs.Graph.Order
import LazyQuery.Proofs.Graph.TableNames
import LazyQuery.Sql.Compile

/-!
# The queries of a well-formed graph

A node that can be written as a statement has one, and it reads the tables of nodes only
(`compound_spec`).

The query of a node names the results of those ancestors that have no table yet. It can be written,
and reads nothing but tables of the store and results that it has named before, as soon as no
ancestor is left in memory alone and every other one is a grouping, has a table or can be written as
a statement (`query_spec`).
-/

set_option autoImplicit false

namespace LazyQuery

open Sql

namespace Graph

variable {g : Graph} {v : View}

theorem name_of_node? (hg : g.WellFormed) {i : NodeId} {n : Node} (h : g.node? i = some n) :
    n.name = g.tableName i :=
  hg.name_eq h

/-! ## Statements of nodes -/

/-- An operand has an expression. -/
theorem expressionWithin_isOk (hg : g.WellFormed) {owner : NodeId} (fuel : Nat) {id : NodeId}
    (hf : id < fuel) (h : g.Has (·.IsOperandOf owner) id) :
    ∃ e, g.expressionWithin fuel id = .ok e := by
  induction fuel generalizing id owner with
  | zero => exact absurd hf (Nat.not_lt_zero id)
  | succ fuel ih =>
    obtain ⟨n, hn, ho⟩ := h
    have hl := hg.linked hn
    have operand : ∀ d ∈ n.op.evalSources, g.Has (·.IsOperandOf owner) d →
        ∃ e, g.expressionWithin fuel d = .ok e := fun d hd h =>
      have lt : d < id := hg.input_lt hn d (Op.mem_inputs_of_mem_evalSources hd)
      ih (Nat.lt_of_lt_of_le lt (Nat.le_of_lt_succ hf)) h
    rw [expressionWithin, node_eq_ok.2 hn, ok_bind]
    obtain ⟨i, name, op, schema⟩ := n
    cases op <;> simp only [Op.IsOperandOf] at ho
    case constant value => exact ⟨_, rfl⟩
    case projection t columns distinct =>
      obtain ⟨m, hm, -⟩ := hl
      obtain _ | ⟨c, _ | _⟩ := columns <;> simp only at ho
      dsimp only
      rw [node_eq_ok.2 hm]
      exact ⟨_, rfl⟩
    case criterion o c =>
      subst ho
      have hc : ∀ d ∈ c.operands, ∃ e, g.expressionWithin fuel d = .ok e :=
        fun d hd => operand d hd (hl.2 d hd)
      cases c <;> simp only [Criterion.operands, List.mem_cons, List.not_mem_nil, or_false,
        forall_eq_or_imp, forall_eq] at hc
      case compare | and | or => exact bind_isOk hc.1 fun _ _ => bind_isOk hc.2 fun _ _ => ⟨_, rfl⟩
      case like | isNull | not => exact bind_isOk hc fun _ _ => ⟨_, rfl⟩
    case arithmetic o a =>
      subst ho
      have ha : ∀ d ∈ a.operands, ∃ e, g.expressionWithin fuel d = .ok e :=
        fun d hd => operand d hd (hl.2 d hd)
      cases a <;> simp only [Arithmetic.operands, List.mem_cons, List.not_mem_nil, or_false,
        forall_eq_or_imp, forall_eq] at ha
      case binary => exact bind_isOk ha.1 fun _ _ => bind_isOk ha.2 fun _ _ => ⟨_, rfl⟩
      case unary => exact bind_isOk ha fun _ _ => ⟨_, rfl⟩

theorem expression_isOk (hg : g.WellFormed) {owner id : NodeId}
    (h : g.Has (·.IsOperandOf owner) id) : ∃ e, g.expression id = .ok e :=
  expressionWithin_isOk hg (g.size + 1) (Nat.lt_succ_of_lt h.lt_size) h

/-- The compound can be written, and what it reads are the tables of these nodes. -/
def CompoundOver (g : Graph) (tables : List NodeId) (c : Except PlanError Compound) : Prop :=
  ∃ s, c = .ok s ∧ Compound.names s = tables.map g.tableName

theorem overTable_isOk (hg : g.WellFormed) {t : NodeId} (ht : g.Has (·.isTable) t)
    {items : Node → Except PlanError (List Item)} (hi : ∀ n, ∃ is, items n = .ok is) :
    ∃ is, (do
      let n ← g.node t
      pure (.ofInput (← items n) (.table n.name))) =
        (.ok (.ofInput is (.table (g.tableName t))) : Except PlanError Select) := by
  obtain ⟨n, hn, -⟩ := ht
  obtain ⟨is, his⟩ := hi n
  refine ⟨is, ?_⟩
  rw [node_eq_ok.2 hn, ok_bind, his, ← name_of_node? hg hn]
  rfl

theorem compoundOver_table (hg : g.WellFormed) {t : NodeId} (ht : g.Has (·.isTable) t)
    {items : Node → Except PlanError (List Item)} (f : Select → Select)
    (hi : ∀ n, ∃ is, items n = .ok is) (hf : ∀ s, (f s).input? = s.input?) :
    g.CompoundOver [t] (do
      let s ← (do
        let n ← g.node t
        pure (.ofInput (← items n) (.table n.name)))
      pure [f s]) := by
  obtain ⟨is, his⟩ := overTable_isOk hg ht hi
  refine ⟨[f (.ofInput is (.table (g.tableName t)))], by rw [his]; rfl, ?_⟩
  rw [Compound.names, List.flatMap_singleton, hf]
  rfl

theorem compoundOver_mapM {part : NodeId → Except PlanError Select} {tables : List NodeId}
    (h : ∀ t ∈ tables, ∃ is, part t = .ok (.ofInput is (.table (g.tableName t)))) :
    g.CompoundOver tables (tables.mapM part) := by
  induction tables with
  | nil => exact ⟨[], rfl, rfl⟩
  | cons t rest ih =>
    obtain ⟨is, hpart⟩ := h t (by simp)
    obtain ⟨parts, hparts, hnames⟩ := ih fun d hd => h d (by simp [hd])
    refine ⟨.ofInput is (.table (g.tableName t)) :: parts, ?_, ?_⟩
    · rw [List.mapM_cons, hpart, ok_bind, hparts]
      rfl
    · rw [Compound.names] at hnames ⊢
      rw [List.flatMap_cons, hnames]
      rfl

/-- **A node that can be written as a statement has one.** It reads the tables that the operation
works on. -/
theorem compound_spec (hg : g.WellFormed) {id : NodeId} {n : Node} (hn : g.node? id = some n)
    (hs : n.op.hasStatement = true) : g.CompoundOver n.op.tables (g.compound id) := by
  have hl := hg.linked hn
  rw [compound, node_eq_ok.2 hn, ok_bind]
  obtain ⟨i, name, op, schema⟩ := n
  cases op
  case source | describe | apply | groupBy | groupProjection => cases hs
  case constant v => exact ⟨_, rfl, rfl⟩
  case criterion o c =>
    have operand : g.Has (·.IsOperandOf o) id := ⟨_, hn, rfl⟩
    have he := expression_isOk hg operand
    exact compoundOver_table hg hl.1 (fun s => s) (fun _ => bind_isOk he fun _ _ => ⟨_, rfl⟩)
      fun _ => rfl
  case arithmetic o a =>
    have operand : g.Has (·.IsOperandOf o) id := ⟨_, hn, rfl⟩
    have he := expression_isOk hg operand
    exact compoundOver_table hg hl.1 (fun s => s) (fun _ => bind_isOk he fun _ _ => ⟨_, rfl⟩)
      fun _ => rfl
  case projection t columns distinct =>
    exact compoundOver_table hg hl (fun s => { s with distinct := distinct })
      (fun _ => ⟨_, rfl⟩) fun _ => rfl
  case selection t c =>
    obtain ⟨e, he⟩ := expression_isOk hg (hl.2.mono fun _ h => h.isOperandOf)
    dsimp only
    simp only [he]
    exact compoundOver_table hg hl.1 (fun s => { s with condition? := some e })
      (fun _ => ⟨_, rfl⟩) fun _ => rfl
  case join l r leftOn rightOn how layout =>
    obtain ⟨⟨n, hn, -⟩, m, hm, -⟩ := hl
    dsimp only
    refine ⟨_, by rw [node_eq_ok.2 hn, ok_bind, node_eq_ok.2 hm]; rfl, ?_⟩
    rw [Compound.names, List.flatMap_singleton]
    exact congrArg₂ (fun a b => [a, b]) (name_of_node? hg hn) (name_of_node? hg hm)
  case union inputs =>
    exact compoundOver_mapM fun i hi => overTable_isOk hg (hl.2 i hi)
      fun t => ⟨columnItems t.name schema.names, rfl⟩
  case orderBy t keys =>
    obtain ⟨n, hn, -⟩ := hl
    dsimp only
    refine ⟨_, by rw [node_eq_ok.2 hn]; rfl, ?_⟩
    rw [Compound.names, List.flatMap_singleton]
    exact congrArg (fun a => [a]) (name_of_node? hg hn)
  case limit t k =>
    exact compoundOver_table hg hl (fun s => { s with limit? := some k })
      (fun _ => ⟨_, rfl⟩) fun _ => rfl
  case aggregator s func input keys columns =>
    obtain ⟨⟨n, hn, -⟩, -⟩ := hl
    dsimp only
    refine ⟨_, by rw [node_eq_ok.2 hn]; rfl, ?_⟩
    rw [Compound.names, List.flatMap_singleton]
    exact congrArg (fun a => [a]) (name_of_node? hg hn)
  case rename t mapping =>
    exact compoundOver_table hg hl (fun s => s) (fun _ => ⟨_, rfl⟩) fun _ => rfl
  case assign t column value =>
    obtain ⟨e, he⟩ := expression_isOk hg hl.2
    dsimp only
    simp only [he]
    exact compoundOver_table hg hl.1 (fun s => s) (fun _ => ⟨_, rfl⟩) fun _ => rfl

/-! ## Queries -/

/-- Is it the name of a table that the view has in the store? -/
def isStored (g : Graph) (v : View) (name : String) : Bool :=
  (List.range g.size).any fun d => v.relational d && sameName name (g.tableName d)

theorem isStored_tableName {d : NodeId} (hd : d < g.size) :
    g.isStored v (g.tableName d) = v.relational d := by
  rw [Bool.eq_iff_iff, isStored, List.any_eq_true]
  constructor
  · rintro ⟨e, -, h⟩
    rw [Bool.and_eq_true, sameName_tableName] at h
    exact h.2 ▸ h.1
  · exact fun h => ⟨d, List.mem_range.2 hd, by rw [h, sameName_self]; rfl⟩

/-- Is an ancestor there for the query of a node? It is a grouping, has a table, or will be a named
result of the query. -/
def Supplied (g : Graph) (v : View) (d : NodeId) : Prop :=
  ∃ n, g.node? d = some n ∧ (n.op.isContainer = true ∨ v.relational d = true ∨
    v.inMemory d = false ∧ n.op.hasStatement = true)

theorem namedResult_eq {d : NodeId} {n : Node} (hn : g.node? d = some n) : g.namedResult v d =
    if n.op.isContainer || v.relational d then pure none
    else if !n.op.hasStatement then throw (.invariant (.notLoaded n.name n.op.kind))
    else (g.compound d).map fun c => some (n.name, c) := by
  rw [namedResult, node_eq_ok.2 hn, ok_bind]
  rfl

/-- The results that a query names, and what they and the query itself read. -/
theorem namedResults_spec (hg : g.WellFormed) (hv : g.SkipsGroupings v) {id : NodeId} {n : Node}
    (hn : g.node? id = some n) (hst : n.op.hasStatement = true) {order : List NodeId}
    (ho : g.IsOrderOf .relational v id order) (hs : ∀ d ∈ order, g.Supplied v d)
    {body : Compound} (hbody : g.compound id = .ok body) (rest before : List NodeId)
    (hsplit : order = before ++ rest) :
    ∃ named, rest.mapM (g.namedResult v) = .ok named ∧ ∀ isKnown : String → Bool,
      (∀ d, d < id → v.relational d = true → isKnown (g.tableName d) = true) →
      (∀ d ∈ before, g.Has (·.isTable) d → isKnown (g.tableName d) = true) →
        readsOnly isKnown (named.filterMap fun r => r) body = true := by
  induction rest generalizing before with
  | nil =>
    refine ⟨[], rfl, fun isKnown hrel hbefore => List.all_eq_true.2 fun name hname => ?_⟩
    obtain ⟨c, hc, hnames⟩ := compound_spec hg hn hst
    rw [hbody, Except.ok.injEq] at hc
    subst hc
    rw [hnames] at hname
    obtain ⟨d, hd, rfl⟩ := List.mem_map.1 hname
    cases hr : v.relational d with
    | true => exact hrel d (hg.input_lt hn d (Op.mem_inputs_of_mem_tables hd)) hr
    | false =>
      have hmem := (ho.mem_iff d).2 ⟨required_of_mem_tables hg hv hn hd, hr⟩
      rw [hsplit, List.append_nil] at hmem
      exact hbefore d hmem ((hg.linked hn).has_table hst hd)
  | cons a rest ih =>
    obtain ⟨named, hnamed, hread⟩ := ih (before ++ [a]) (by simp [hsplit])
    obtain ⟨m, hm, hsup⟩ := hs a (by simp [hsplit])
    have lt : a < id := ho.lt hg (by simp [hsplit])
    rw [List.mapM_cons, namedResult_eq hm]
    by_cases hskip : (m.op.isContainer || v.relational a) = true
    · refine ⟨none :: named, by rw [if_pos hskip, hnamed]; rfl, fun isKnown hrel hbefore => ?_⟩
      refine hread isKnown hrel fun d hd ht => ?_
      rcases List.mem_append.1 hd with hd | hd
      · exact hbefore d hd ht
      · rw [List.mem_singleton.1 hd] at ht ⊢
        obtain ⟨m', hm', ht⟩ := ht
        rw [hm, Option.some.injEq] at hm'
        subst hm'
        rw [Op.isContainer_of_isTable ht, Bool.false_or] at hskip
        exact hrel a lt hskip
    · rw [if_neg hskip]
      simp only [Bool.or_eq_true, not_or, Bool.not_eq_true] at hskip
      obtain ⟨hmem, hstm⟩ := (hsup.resolve_left (by simp [hskip.1])).resolve_left (by simp [hskip.2])
      obtain ⟨c, hc, hnames⟩ := compound_spec hg hm hstm
      refine ⟨some (m.name, c) :: named, by rw [hstm, hc, hnamed]; rfl, fun isKnown hrel hbefore => ?_⟩
      change readsOnly isKnown ((m.name, c) :: named.filterMap fun r => r) body = true
      rw [readsOnly, Bool.and_eq_true, List.all_eq_true]
      refine ⟨fun name hname => ?_, hread _ (fun d hd hr => by simp [hrel d hd hr]) fun d hd ht => ?_⟩
      · rw [hnames] at hname
        obtain ⟨d, hd, rfl⟩ := List.mem_map.1 hname
        cases hr : v.relational d with
        | true =>
          have hd : d < a := hg.input_lt hm d (Op.mem_inputs_of_mem_tables hd)
          exact hrel d (Nat.lt_trans hd lt) hr
        | false =>
          have := ho.before hsplit hmem (required_of_mem_tables hg hv hm hd) hr
          exact hbefore d this ((hg.linked hm).has_table hstm hd)
      · rcases List.mem_append.1 hd with hd | hd
        · simp [hbefore d hd ht]
        · rw [List.mem_singleton.1 hd, name_of_node? hg hm, sameName_self, Bool.true_or]

/-- **The query of a node can be written as soon as all its ancestors are supplied.** Then it reads
nothing but tables of the store and results that it has named before, and it names none if all its
ancestors have tables. -/
theorem query_spec (hg : g.WellFormed) (hv : g.SkipsGroupings v) {id : NodeId} {n : Node}
    (hn : g.node? id = some n) (hst : n.op.hasStatement = true)
    (hs : ∀ d, g.Required .relational v id d → v.relational d = false → g.Supplied v d) :
    ∃ q, g.query id v = .ok q ∧ g.compound id = .ok q.body ∧
      (∀ isKnown : String → Bool,
        (∀ d, d < id → v.relational d = true → isKnown (g.tableName d) = true) →
          readsOnly isKnown q.named q.body = true) ∧
      ((∀ d, g.Required .relational v id d → v.relational d = false →
        g.Has (·.isContainer) d) → q.named = []) := by
  obtain ⟨order, horder, ho⟩ := dependencyOrder_spec hg hn .relational v
  obtain ⟨body, hbody, -⟩ := compound_spec hg hn hst
  obtain ⟨named, hnamed, hread⟩ := namedResults_spec hg hv hn hst ho
    (fun d hd => hs d ((ho.mem_iff d).1 hd).1 ((ho.mem_iff d).1 hd).2) hbody order [] rfl
  refine ⟨⟨named.filterMap fun r => r, body⟩, ?_, hbody, fun isKnown hrel => ?_, fun hall => ?_⟩
  · rw [query, horder, ok_bind, hnamed, ok_bind, hbody]
    rfl
  · exact hread isKnown hrel fun d hd => by cases hd
  · refine List.filterMap_eq_nil_iff.2 fun r hr => ?_
    obtain ⟨d, hd, hdr⟩ := exists_of_mem_mapM hnamed hr
    obtain ⟨hreq, hrel⟩ := (ho.mem_iff d).1 hd
    obtain ⟨m, hm, hc⟩ := hall d hreq hrel
    rw [namedResult_eq hm, hc] at hdr
    cases hdr
    rfl

end Graph
end LazyQuery
