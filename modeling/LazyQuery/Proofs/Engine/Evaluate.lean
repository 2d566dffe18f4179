import LazyQuery.Proofs.Graph.WellFormed
import LazyQuery.Proofs.Table.Errors

/-!
# What an evaluation depends on

The evaluation of a node asks for the results of the nodes in `Op.reads`.

* `evaluate_mono` says that an evaluation with an answer has the same answer with any other way to
  fetch results that yields the same ones, and in any graph with the same nodes up to its own.
* `evaluate_failsOnly` says that an evaluation fails with reportable errors only and with that of the
  node's supplied function, if what is fetched fails with reportable errors only.
* `evaluate_passes` says of any property that the errors of plans and frames have that those of an
  evaluation have it, if those of what is fetched do.
-/

set_option autoImplicit false

namespace LazyQuery

/-- The step has the answers of another one, and possibly more. -/
def Refines {ε α : Type} (x y : Except ε α) : Prop := ∀ a, x = .ok a → y = .ok a

theorem Refines.refl {ε α : Type} (x : Except ε α) : Refines x x := fun _ h => h

theorem Refines.bind {ε α β : Type} {x y : Except ε α} {f f' : α → Except ε β}
    (hx : Refines x y) (hf : ∀ a, x = .ok a → Refines (f a) (f' a)) :
    Refines (x >>= f) (y >>= f') := by
  intro b hb
  obtain ⟨a, ha, hb⟩ := bind_eq_ok.1 hb
  exact bind_eq_ok.2 ⟨a, hx a ha, hf a ha b hb⟩

theorem Refines.mapM {ε α β : Type} {f f' : α → Except ε β} {xs : List α}
    (h : ∀ x ∈ xs, Refines (f x) (f' x)) : Refines (xs.mapM f) (xs.mapM f') := by
  induction xs with
  | nil => exact Refines.refl _
  | cons x xs ih =>
    rw [List.mapM_cons, List.mapM_cons]
    exact (h x (by simp)).bind fun y _ => (ih fun z hz => h z (by simp [hz])).bind
      fun ys _ => Refines.refl _

namespace Graph

variable {g g' : Graph} {fetch fetch' : Fetch}

/-! ## Other ways to fetch -/

/-- The graph `g'` has the nodes of `g` as far as some node. -/
def AgreesTo (g g' : Graph) (id : NodeId) : Prop :=
  ∀ {i n}, i ≤ id → g.node? i = some n → g'.node? i = some n

theorem Extends.agreesTo (h : g.Extends g') (id : NodeId) : g.AgreesTo g' id := fun _ hn => h.node hn

/-- As far as a graph goes, a larger one has no other nodes. -/
theorem Extends.agreesTo_of_lt (h : g.Extends g') {id : NodeId} (hid : id < g.size) :
    g'.AgreesTo g id := by
  intro i n hi hn
  obtain ⟨m, hm⟩ := node?_isSome (Nat.lt_of_le_of_lt hi hid)
  rw [← hn, hm]
  exact (h.node hm).symm

theorem AgreesTo.mono {id d : NodeId} (h : g.AgreesTo g' id) (hd : d ≤ id) : g.AgreesTo g' d :=
  fun hi => h (Nat.le_trans hi hd)

theorem AgreesTo.node_refines {id : NodeId} (h : g.AgreesTo g' id) :
    Refines (liftM (g.node id) : Except EngineError Node) (liftM (g'.node id)) := by
  intro n hn
  exact mapError_eq_ok.2 (node_eq_ok.2 (h (Nat.le_refl _) (node_eq_ok.1 (mapError_eq_ok.1 hn))))

theorem inputValue_refines {d : NodeId} (hg : g.AgreesTo g' d) (h : Refines (fetch d) (fetch' d)) :
    Refines (g.inputValue fetch d) (g'.inputValue fetch' d) :=
  h.bind fun _ _ => hg.node_refines.bind fun _ _ => Refines.refl _

theorem inputTable_refines {d : NodeId} (hg : g.AgreesTo g' d) (h : Refines (fetch d) (fetch' d)) :
    Refines (g.inputTable fetch d) (g'.inputTable fetch' d) :=
  (inputValue_refines hg h).bind fun _ _ => Refines.refl _

/-- The result of a constant is not asked for, as it stands in the graph. -/
theorem operandValues_refines {d : NodeId} (hg : g.AgreesTo g' d) (rows : Nat)
    (hd : g.Has (·.isContainer = false) d)
    (h : g.Has (·.isTable) d → Refines (fetch d) (fetch' d)) :
    Refines (g.operandValues fetch rows d) (g'.operandValues fetch' rows d) := by
  obtain ⟨n, hn, hc⟩ := hd
  refine hg.node_refines.bind fun m hm => ?_
  obtain rfl := Option.some.inj (hn.symm.trans (node_eq_ok.1 (mapError_eq_ok.1 hm)))
  split
  · exact Refines.refl _
  · rename_i hop
    have ht : n.op.isTable = true := by rw [Op.isTable_eq_not hop, hc]; rfl
    exact (inputTable_refines hg (h ⟨n, hn, ht⟩)).bind fun _ _ => Refines.refl _

theorem criterion_refines {operand operand' : NodeId → Except EngineError (List Scalar)}
    {c : Criterion} (h : ∀ d ∈ c.operands, Refines (operand d) (operand' d)) :
    Refines (c.values operand) (c.values operand') := by
  cases c with
  | compare _ l r | and l r | or l r =>
    exact (h l (by simp [Criterion.operands])).bind fun _ _ =>
      (h r (by simp [Criterion.operands])).bind fun _ _ => Refines.refl _
  | like a _ | isNull a | not a =>
    exact (h a (by simp [Criterion.operands])).bind fun _ _ => Refines.refl _

theorem arithmetic_refines {operand operand' : NodeId → Except EngineError (List Scalar)}
    {a : Arithmetic} (h : ∀ d ∈ a.operands, Refines (operand d) (operand' d)) :
    Refines (a.values operand) (a.values operand') := by
  cases a with
  | binary _ l r =>
    exact (h l (by simp [Arithmetic.operands])).bind fun _ _ =>
      (h r (by simp [Arithmetic.operands])).bind fun _ _ => Refines.refl _
  | unary _ b => exact (h b (by simp [Arithmetic.operands])).bind fun _ _ => Refines.refl _

/-- **An evaluation hangs on the results of the tables that it reads alone.** With an answer it has the
same answer wherever these are fetched from, and whatever other nodes there are. -/
theorem evaluate_mono (hw : g.WellFormed) {id : NodeId} (hg : g.AgreesTo g' id) {n : Node}
    (hn : g.node? id = some n)
    (h : ∀ d ∈ n.op.reads, g.Has (·.isTable) d → Refines (fetch d) (fetch' d)) :
    Refines (g.evaluate fetch id) (g'.evaluate fetch' id) := by
  refine hg.node_refines.bind fun m hm => ?_
  rw [node_eq_ok.1 (mapError_eq_ok.1 hm), Option.some.injEq] at hn
  subst hn
  have hm := node_eq_ok.1 (mapError_eq_ok.1 hm)
  have hl := hw.linked hm
  have agrees : ∀ d ∈ m.op.reads, g.AgreesTo g' d := fun d hd => hg.mono <| Nat.le_of_lt <|
    hw.input_lt hm d (Op.mem_inputs_of_mem_reads hd)
  have value : ∀ d ∈ m.op.reads, g.Has (·.isTable) d →
      Refines (g.inputValue fetch d) (g'.inputValue fetch' d) :=
    fun d hd ht => inputValue_refines (agrees d hd) (h d hd ht)
  have table : ∀ d ∈ m.op.reads, g.Has (·.isTable) d →
      Refines (g.inputTable fetch d) (g'.inputTable fetch' d) :=
    fun d hd ht => inputTable_refines (agrees d hd) (h d hd ht)
  have operand : m.op.isContainer = false → ∀ rows, ∀ d ∈ m.op.reads,
      Refines (g.operandValues fetch rows d) (g'.operandValues fetch' rows d) :=
    fun hc rows d hd => operandValues_refines (agrees d hd) rows (hl.has_result hc hd) (h d hd)
  obtain ⟨i, name, op, schema⟩ := m
  cases op <;> simp only [Op.reads, Op.tables, Op.sources, Op.evalSources, List.append_nil, forall_eq,
    List.mem_append, List.mem_cons, List.not_mem_nil, or_false, forall_eq_or_imp, Op.Linked]
    at value table operand hl ⊢
  case source | groupBy | groupProjection | constant => exact Refines.refl _
  case criterion =>
    exact (table.1 hl.1).bind fun t _ => (criterion_refines (operand rfl t.rowCount).2).bind
      fun _ _ => Refines.refl _
  case arithmetic =>
    exact (table.1 hl.1).bind fun t _ => (arithmetic_refines (operand rfl t.rowCount).2).bind
      fun _ _ => Refines.refl _
  case selection | assign =>
    exact (table.1 hl.1).bind fun t _ => (operand rfl t.rowCount).2.bind fun _ _ => Refines.refl _
  case join =>
    exact (value.1 hl.1).bind fun _ _ => (value.2 hl.2).bind fun _ _ => Refines.refl _
  case union =>
    exact (Refines.mapM fun d hd => value d hd (hl.2 d hd)).bind fun _ _ => Refines.refl _
  case aggregator => exact (table hl.1).bind fun _ _ => Refines.refl _
  case projection | orderBy | limit | rename | describe | apply =>
    exact (table hl).bind fun _ _ => Refines.refl _

/-! ## Errors -/

/-- Is the node a supplied function, and the error the one that the function yields for the table it is
given? -/
def IsSupplied (g : Graph) (fetch : Fetch) (id : NodeId) (e : EngineError) : Prop :=
  ∃ n source name func t e', g.node? id = some n ∧ n.op = .apply source name func ∧
    g.inputTable fetch source = .ok t ∧ func t = .error e' ∧ e = .plan e'

/-- Is the error not one of the engine itself, but a reportable one or that of the node's supplied
function? -/
def Admits (g : Graph) (fetch : Fetch) (id : NodeId) (e : EngineError) : Prop :=
  e.IsReportable ∨ g.IsSupplied fetch id e

theorem failsOnly_liftFrame {α : Type} {x : Except FrameError α}
    (h : FailsOnly FrameError.IsReportable x) :
    FailsOnly EngineError.IsReportable (liftM x : Except EngineError α) :=
  FailsOnly.mapError h

theorem node_failsOnly {d : NodeId} (hd : d < g.size) :
    FailsOnly EngineError.IsReportable (liftM (g.node d) : Except EngineError Node) := by
  obtain ⟨n, hn⟩ := node?_isSome hd
  rw [node_eq_ok.2 hn]
  exact failsOnly_ok n

theorem inputValue_failsOnly {d : NodeId} (hd : d < g.size)
    (h : FailsOnly EngineError.IsReportable (fetch d)) :
    FailsOnly EngineError.IsReportable (g.inputValue fetch d) :=
  h.bind fun _ _ => (node_failsOnly hd).bind fun _ _ => failsOnly_ok _

theorem inputTable_failsOnly {d : NodeId} (hd : d < g.size)
    (h : FailsOnly EngineError.IsReportable (fetch d)) :
    FailsOnly EngineError.IsReportable (g.inputTable fetch d) :=
  (inputValue_failsOnly hd h).bind fun _ _ => failsOnly_liftFrame Result.toTable_failsOnly

theorem operandValues_failsOnly {d : NodeId} (rows : Nat) (hd : d < g.size)
    (h : FailsOnly EngineError.IsReportable (fetch d)) :
    FailsOnly EngineError.IsReportable (g.operandValues fetch rows d) := by
  refine (node_failsOnly hd).bind fun n _ => ?_
  split
  · exact failsOnly_ok _
  · refine (inputTable_failsOnly hd h).bind fun t _ => ?_
    split
    · exact failsOnly_error.2 trivial
    · exact FailsOnly.ite (fun _ => failsOnly_ok _) fun _ => failsOnly_error.2 trivial

theorem criterion_failsOnly {operand : NodeId → Except EngineError (List Scalar)} {c : Criterion}
    (h : ∀ d ∈ c.operands, FailsOnly EngineError.IsReportable (operand d)) :
    FailsOnly EngineError.IsReportable (c.values operand) := by
  cases c with
  | compare _ l r =>
    exact (h l (by simp [Criterion.operands])).bind fun _ _ =>
      (h r (by simp [Criterion.operands])).bind fun _ _ =>
        failsOnly_liftFrame Elementwise.compare_failsOnly
  | and l r | or l r =>
    exact (h l (by simp [Criterion.operands])).bind fun _ _ =>
      (h r (by simp [Criterion.operands])).bind fun _ _ =>
        failsOnly_liftFrame Elementwise.logical_failsOnly
  | like a _ | isNull a | not a =>
    exact (h a (by simp [Criterion.operands])).bind fun _ _ => failsOnly_ok _

theorem arithmetic_failsOnly {operand : NodeId → Except EngineError (List Scalar)} {a : Arithmetic}
    (h : ∀ d ∈ a.operands, FailsOnly EngineError.IsReportable (operand d)) :
    FailsOnly EngineError.IsReportable (a.values operand) := by
  cases a with
  | binary _ l r =>
    exact (h l (by simp [Arithmetic.operands])).bind fun _ _ =>
      (h r (by simp [Arithmetic.operands])).bind fun _ _ =>
        failsOnly_liftFrame Elementwise.arith_failsOnly
  | unary _ b =>
    exact (h b (by simp [Arithmetic.operands])).bind fun _ _ =>
      failsOnly_liftFrame Elementwise.unary_failsOnly

theorem expressionTable_failsOnly {n : Node} {values : List Scalar} :
    FailsOnly EngineError.IsReportable (n.expressionTable values) := by
  unfold Node.expressionTable
  split
  · exact failsOnly_error.2 trivial
  · exact failsOnly_ok _

/-- An evaluation fails with reportable errors and that of the node's supplied function only, if what is
fetched fails with reportable errors only. -/
theorem evaluate_failsOnly (hg : g.WellFormed) {id : NodeId} {n : Node}
    (hn : g.node? id = some n) (hs : n.op.isSource = false) (hc : n.op.isContainer = false)
    (h : ∀ d ∈ n.op.reads, FailsOnly EngineError.IsReportable (fetch d)) :
    FailsOnly (g.Admits fetch id) (g.evaluate fetch id) := by
  have lt : ∀ d ∈ n.op.reads, d < g.size := fun d hd =>
    (hg.linked hn).input_lt (Op.mem_inputs_of_mem_reads hd)
  have table : ∀ d ∈ n.op.reads, FailsOnly EngineError.IsReportable (g.inputTable fetch d) :=
    fun d hd => inputTable_failsOnly (lt d hd) (h d hd)
  have operand : ∀ rows, ∀ d ∈ n.op.reads,
      FailsOnly EngineError.IsReportable (g.operandValues fetch rows d) :=
    fun rows d hd => operandValues_failsOnly rows (lt d hd) (h d hd)
  have frame {α : Type} {x : Except FrameError α} (h : FailsOnly FrameError.IsReportable x) :=
    failsOnly_liftFrame h
  have ofTable {x : Except FrameError Table} (h : FailsOnly FrameError.IsReportable x) :
      FailsOnly EngineError.IsReportable
        (do pure (Result.table (← x)) : Except EngineError Result) :=
    (frame h).bind fun _ _ => failsOnly_ok _
  rw [evaluate, node_eq_ok.2 hn]
  obtain ⟨i, name, op, schema⟩ := n
  cases op <;> simp only [Op.reads, Op.tables, Op.sources, Op.evalSources, List.append_nil, forall_eq,
    List.mem_append, List.mem_cons, List.not_mem_nil, or_false, forall_eq_or_imp]
    at h lt table operand
  case apply s name func =>
    refine (table.mono fun _ => .inl).bind fun t ht => FailsOnly.bind ?_ fun _ _ => failsOnly_ok _
    refine FailsOnly.mapError (FailsOnly.bind (fun e he => ?_) fun out _ => ?_)
    · exact .inr ⟨_, _, _, _, t, e, hn, rfl, ht, he, rfl⟩
    · exact FailsOnly.ite (fun _ => failsOnly_error.2 (.inl trivial)) fun _ => failsOnly_ok _
  all_goals refine FailsOnly.mono (P := EngineError.IsReportable) ?_ fun _ => .inl
  case source => cases hs
  case groupBy | groupProjection => cases hc
  case constant => exact failsOnly_ok _
  case criterion =>
    exact table.1.bind fun t _ => (criterion_failsOnly (operand t.rowCount).2).bind
      fun _ _ => expressionTable_failsOnly
  case arithmetic =>
    exact table.1.bind fun t _ => (arithmetic_failsOnly (operand t.rowCount).2).bind
      fun _ _ => expressionTable_failsOnly
  case selection =>
    exact table.1.bind fun t _ => (operand t.rowCount).2.bind fun _ _ =>
      ofTable Table.filter_failsOnly
  case assign =>
    exact table.1.bind fun t _ => (operand t.rowCount).2.bind fun _ _ =>
      ofTable Table.assignColumn_failsOnly
  case projection =>
    refine table.bind fun t _ => (frame Table.select_failsOnly).bind fun _ _ => ?_
    exact FailsOnly.ite (fun _ => ofTable Table.dropDuplicates_failsOnly) fun _ => failsOnly_ok _
  case join =>
    refine (inputValue_failsOnly lt.1 h.1).bind fun _ _ => ?_
    refine (inputValue_failsOnly lt.2 h.2).bind fun _ _ => ?_
    exact (frame Result.toTable_failsOnly).bind fun _ _ =>
      (frame Result.toTable_failsOnly).bind fun _ _ => ofTable Table.join_failsOnly
  case union =>
    refine (FailsOnly.mapM fun d hd => inputValue_failsOnly (lt d hd) (h d hd)).bind fun _ _ => ?_
    exact (FailsOnly.mapM fun _ _ => frame Result.toTable_failsOnly).bind fun _ _ =>
      ofTable Table.concat_failsOnly
  case orderBy => exact table.bind fun _ _ => ofTable Table.sortValues_failsOnly
  case limit => exact table.bind fun _ _ => failsOnly_ok _
  case aggregator =>
    refine table.bind fun _ _ => FailsOnly.ite (fun _ => ?_) fun _ => ?_
    · exact (frame Table.aggregateTable_failsOnly).bind fun _ _ => failsOnly_ok _
    · exact ofTable Table.aggregateGroups_failsOnly
  case rename => exact table.bind fun _ _ => ofTable Table.rename_failsOnly
  case describe => exact table.bind fun _ _ => ofTable Table.describe_failsOnly

/-! ## Errors that are passed on -/

section Passing

/-! An evaluation adds errors of plans and of tables to those of what it fetches, and no others. -/

variable {P : EngineError → Prop} (hplan : ∀ e, P (.plan e)) (hframe : ∀ e, P (.frame e))
  (hfetch : ∀ d, FailsOnly P (fetch d))
include hplan hframe hfetch

theorem inputTable_passes (d : NodeId) :
    FailsOnly P (g.inputValue fetch d) ∧ FailsOnly P (g.inputTable fetch d) := by
  have value : FailsOnly P (g.inputValue fetch d) := (hfetch d).bind fun _ _ =>
    FailsOnly.bind (FailsOnly.mapError fun e _ => hplan e) fun _ _ => failsOnly_ok _
  exact ⟨value, value.bind fun _ _ => FailsOnly.mapError fun e _ => hframe e⟩

theorem operandValues_passes (rows : Nat) (d : NodeId) :
    FailsOnly P (g.operandValues fetch rows d) := by
  refine FailsOnly.bind (FailsOnly.mapError fun e _ => hplan e) fun n _ => ?_
  split
  · exact failsOnly_ok _
  · refine (inputTable_passes hplan hframe hfetch d).2.bind fun t _ => ?_
    split
    · exact failsOnly_error.2 (hframe _)
    · exact FailsOnly.ite (fun _ => failsOnly_ok _) fun _ => failsOnly_error.2 (hframe _)

/-- An evaluation passes on the errors of what is fetched, or has one of a plan or a frame. -/
theorem evaluate_passes (id : NodeId) : FailsOnly P (g.evaluate fetch id) := by
  have table (d : NodeId) : FailsOnly P (g.inputTable fetch d) :=
    (inputTable_passes hplan hframe hfetch d).2
  have value (d : NodeId) : FailsOnly P (g.inputValue fetch d) :=
    (inputTable_passes hplan hframe hfetch d).1
  have operand (rows : Nat) (d : NodeId) : FailsOnly P (g.operandValues fetch rows d) :=
    operandValues_passes hplan hframe hfetch rows d
  have frame {α : Type} {x : Except FrameError α} : FailsOnly P (liftM x : Except EngineError α) :=
    FailsOnly.mapError fun e _ => hframe e
  have ofTable {x : Except FrameError Table} :
      FailsOnly P (do pure (Result.table (← x)) : Except EngineError Result) :=
    frame.bind fun _ _ => failsOnly_ok _
  have expression {n : Node} {values : List Scalar} : FailsOnly P (n.expressionTable values) := by
    unfold Node.expressionTable
    split
    · exact failsOnly_error.2 (hframe _)
    · exact failsOnly_ok _
  refine FailsOnly.bind (FailsOnly.mapError fun e _ => hplan e) fun n hn => ?_
  clear hn
  obtain ⟨i, name, op, schema⟩ := n
  cases op
  case source | groupBy | groupProjection => exact failsOnly_error.2 (hplan _)
  case constant => exact failsOnly_ok _
  case criterion owner c =>
    refine (table owner).bind fun t _ => FailsOnly.bind ?_ fun _ _ => expression
    cases c with
    | compare _ l r | and l r | or l r =>
      exact (operand _ l).bind fun _ _ => (operand _ r).bind fun _ _ => frame
    | like a _ | isNull a | not a => exact (operand _ a).bind fun _ _ => failsOnly_ok _
  case arithmetic owner a =>
    refine (table owner).bind fun t _ => FailsOnly.bind ?_ fun _ _ => expression
    cases a with
    | binary _ l r => exact (operand _ l).bind fun _ _ => (operand _ r).bind fun _ _ => frame
    | unary _ b => exact (operand _ b).bind fun _ _ => frame
  case selection s c =>
    exact (table s).bind fun t _ => (operand t.rowCount c).bind fun _ _ => ofTable
  case assign s _ v =>
    exact (table s).bind fun t _ => (operand t.rowCount v).bind fun _ _ => ofTable
  case projection s _ _ =>
    refine (table s).bind fun t _ => frame.bind fun _ _ => ?_
    exact FailsOnly.ite (fun _ => ofTable) fun _ => failsOnly_ok _
  case join l r _ _ _ _ =>
    exact (value l).bind fun _ _ => (value r).bind fun _ _ => frame.bind fun _ _ =>
      frame.bind fun _ _ => ofTable
  case union inputs =>
    exact (FailsOnly.mapM fun d _ => value d).bind fun _ _ =>
      (FailsOnly.mapM fun _ _ => frame).bind fun _ _ => ofTable
  case orderBy s _ | rename s _ | describe s => exact (table s).bind fun _ _ => ofTable
  case limit s _ => exact (table s).bind fun _ _ => failsOnly_ok _
  case aggregator =>
    refine (table _).bind fun _ _ => FailsOnly.ite (fun _ => ?_) fun _ => ofTable
    exact frame.bind fun _ _ => failsOnly_ok _
  case apply s _ _ =>
    exact (table s).bind fun _ _ => FailsOnly.bind (FailsOnly.mapError fun e _ => hplan e)
      fun _ _ => failsOnly_ok _

end Passing
end Graph
end LazyQuery
