import LazyQuery.Proofs.Engine.InMemory

/-!
# Operands and the rows of their table

An expression is over the rows of one table, and so are a selection and an assignment (`Op.owner?`). The
constructors see to it that the operands belong to this table, and an evaluation that each operand has a
value for every row of it.

The two do not agree on a column that is chosen without repetitions. It belongs to the table that it is
chosen from, but has fewer values if one of them is repeated there (`Op.Shortens`). `aligned_iff` says that
an evaluation in memory stumbles over an operand of the wrong length in this case, and in no other.
-/

set_option autoImplicit false

namespace LazyQuery

/-- The error is not about the length of a column. -/
def FrameError.SparesLengths (e : FrameError) : Prop := ∀ expected actual, e ≠ .length expected actual

/-- The step refuses a column that has not as many values as there are rows. -/
def Mismatched {α : Type} (x : Except EngineError α) : Prop :=
  ∃ expected actual, x = .error (.frame (.length expected actual))

/-- The step yields as many values as there are rows, or refuses a column. -/
def Fills (rows : Nat) (x : Except EngineError (List Scalar)) : Prop :=
  Mismatched x ∨ ∃ values, x = .ok values ∧ values.length = rows

/-! ## Steps -/

section Steps

variable {α β : Type} {rows : Nat} {x y : Except EngineError (List Scalar)} {a b values : List Scalar}

theorem not_mismatched_ok (z : α) : ¬Mismatched (.ok z : Except EngineError α) := nofun

theorem mismatched_bind {z : Except EngineError α} {f : α → Except EngineError β} :
    Mismatched (z >>= f) ↔ Mismatched z ∨ ∃ a, z = .ok a ∧ Mismatched (f a) := by
  cases z with
  | ok a => simp [Mismatched]
  | error e => simp [Mismatched]

/-- What comes after a step that is never at fault leaves it to the step. -/
theorem mismatched_bind_iff_left {z : Except EngineError α} {f : α → Except EngineError β}
    (hf : ∀ a, z = .ok a → ¬Mismatched (f a)) : Mismatched (z >>= f) ↔ Mismatched z := by
  refine mismatched_bind.trans (or_iff_left ?_)
  rintro ⟨a, ha, hmis⟩
  exact hf a ha hmis

theorem mismatched_liftFrame {z : Except FrameError α} : Mismatched (liftM z : Except EngineError α) ↔
    ∃ expected actual, z = .error (.length expected actual) := by
  refine exists_congr fun expected => exists_congr fun actual => mapError_eq_error.trans ?_
  exact ⟨fun ⟨_, he, h⟩ => EngineError.frame.inj h ▸ he, fun h => ⟨_, h, rfl⟩⟩

theorem not_mismatched_liftFrame {z : Except FrameError α} (h : FailsOnly FrameError.SparesLengths z) :
    ¬Mismatched (liftM z : Except EngineError α) := by
  rw [mismatched_liftFrame]
  rintro ⟨expected, actual, hz⟩
  exact h _ hz expected actual rfl

theorem Fills.length (h : Fills rows x) (hx : x = .ok values) : values.length = rows := by
  subst hx
  obtain hmis | ⟨_, hok, hlen⟩ := h
  · exact absurd hmis (not_mismatched_ok _)
  · exact Except.ok.inj hok ▸ hlen

/-- Two columns are combined unless one of them is refused. -/
theorem mismatched_combine {f : List Scalar → List Scalar → Except EngineError β} (hx : Fills rows x)
    (hy : Fills rows y) (hf : ∀ a b, a.length = b.length → ¬Mismatched (f a b)) :
    Mismatched (x >>= fun a => y >>= f a) ↔ Mismatched x ∨ Mismatched y := by
  simp only [mismatched_bind]
  constructor
  · rintro (h | ⟨a, ha, h | ⟨b, hb, h⟩⟩)
    · exact .inl h
    · exact .inr h
    · exact absurd h (hf a b ((hx.length ha).trans (hy.length hb).symm))
  · rintro (h | h)
    · exact .inl h
    · exact hx.imp_right fun ⟨a, ha, _⟩ => ⟨a, ha, .inl h⟩

/-! ## Expressions -/

theorem checkLength_of_length (h : a.length = b.length) : Elementwise.checkLength a b = .ok () := if_pos h

theorem checkNumeric_spares {op : String} {v : Scalar} :
    FailsOnly FrameError.SparesLengths (Elementwise.checkNumeric op v) := by
  unfold Elementwise.checkNumeric
  split <;> simp [FrameError.SparesLengths]

theorem compare_spares (op : CompareOp) (h : a.length = b.length) :
    FailsOnly FrameError.SparesLengths (Elementwise.compare op a b) := by
  rw [Elementwise.compare, checkLength_of_length h]
  exact failsOnly_ok _

theorem logical_spares (op : Connective) (h : a.length = b.length) :
    FailsOnly FrameError.SparesLengths (Elementwise.logical op a b) := by
  cases op with
  | not => exact failsOnly_ok _
  | and | or =>
    rw [Elementwise.logical, checkLength_of_length h]
    exact failsOnly_ok _

theorem arith_spares (op : ArithOp) (h : a.length = b.length) :
    FailsOnly FrameError.SparesLengths (Elementwise.arith op a b) := by
  rw [Elementwise.arith, checkLength_of_length h, ok_bind]
  exact FailsOnly.mapM fun _ _ => checkNumeric_spares.bind fun _ _ =>
    checkNumeric_spares.bind fun _ _ => failsOnly_ok _

theorem unary_spares (op : UnaryOp) (a : List Scalar) :
    FailsOnly FrameError.SparesLengths (Elementwise.unary op a) :=
  FailsOnly.mapM fun _ _ => checkNumeric_spares.bind fun _ _ => failsOnly_ok _

variable {operand : NodeId → Except EngineError (List Scalar)}

theorem criterion_mismatched_iff {c : Criterion} (h : ∀ d ∈ c.operands, Fills rows (operand d)) :
    Mismatched (c.values operand) ↔ ∃ d ∈ c.operands, Mismatched (operand d) := by
  cases c <;> simp only [Criterion.operands, List.mem_cons, List.not_mem_nil, or_false, forall_eq_or_imp,
    forall_eq, exists_eq_or_imp, exists_eq_left] at h ⊢
  case compare op l r =>
    exact mismatched_combine h.1 h.2 fun _ _ hlen => not_mismatched_liftFrame (compare_spares op hlen)
  case and | or =>
    exact mismatched_combine h.1 h.2 fun _ _ hlen => not_mismatched_liftFrame (logical_spares _ hlen)
  case like | isNull | not =>
    exact mismatched_bind_iff_left fun _ _ => not_mismatched_ok _

theorem arithmetic_mismatched_iff {e : Arithmetic} (h : ∀ d ∈ e.operands, Fills rows (operand d)) :
    Mismatched (e.values operand) ↔ ∃ d ∈ e.operands, Mismatched (operand d) := by
  cases e <;> simp only [Arithmetic.operands, List.mem_cons, List.not_mem_nil, or_false, forall_eq_or_imp,
    forall_eq, exists_eq_or_imp, exists_eq_left] at h ⊢
  case binary op l r =>
    exact mismatched_combine h.1 h.2 fun _ _ hlen => not_mismatched_liftFrame (arith_spares op hlen)
  case unary op d =>
    exact mismatched_bind_iff_left fun a _ => not_mismatched_liftFrame (unary_spares op a)

/-- A condition has as many values as its operands. -/
theorem length_criterion {c : Criterion} (h : ∀ d values, operand d = .ok values → values.length = rows)
    (hv : c.values operand = .ok values) : values.length = rows := by
  cases c with
  | compare _ l r | and l r | or l r =>
    obtain ⟨a, ha, hv⟩ := bind_eq_ok.1 hv
    obtain ⟨b, hb, hv⟩ := bind_eq_ok.1 hv
    obtain ⟨-, -, hv⟩ := bind_eq_ok.1 (Graph.liftFrame_eq_ok.1 hv)
    obtain rfl := Except.ok.inj hv
    simp [h l a ha, h r b hb]
  | like d _ | isNull d | not d =>
    obtain ⟨a, ha, hv⟩ := bind_eq_ok.1 hv
    obtain rfl := Except.ok.inj hv
    exact (List.length_map _).trans (h d a ha)

/-- An arithmetic expression has as many values as its operands. -/
theorem length_arithmetic {e : Arithmetic} (h : ∀ d values, operand d = .ok values → values.length = rows)
    (hv : e.values operand = .ok values) : values.length = rows := by
  cases e with
  | binary op l r =>
    obtain ⟨a, ha, hv⟩ := bind_eq_ok.1 hv
    obtain ⟨b, hb, hv⟩ := bind_eq_ok.1 hv
    obtain ⟨-, -, hv⟩ := bind_eq_ok.1 (Graph.liftFrame_eq_ok.1 hv)
    rw [← (mapM_eq_ok.1 hv).length_eq, List.length_zip, h l a ha, h r b hb, Nat.min_self]
  | unary op d =>
    obtain ⟨a, ha, hv⟩ := bind_eq_ok.1 hv
    rw [← (mapM_eq_ok.1 (Graph.liftFrame_eq_ok.1 hv)).length_eq, h d a ha]

end Steps

/-! ## Tables -/

/-- The key of each value of a column. -/
def Column.keys (c : Column) : List Key := c.values.map fun v => Scalar.keyOf [v]

namespace Table

variable {t u : Table} {c : Column}

theorem select_singleton {name : String} (h : t.select [name] = .ok u) :
    ∃ c, t.column? name = some c ∧ u = ⟨[c]⟩ := by
  obtain ⟨columns, hneed, hbuild⟩ := bind_eq_ok.1 h
  obtain ⟨rfl, -⟩ := build_eq_ok.1 hbuild
  obtain ⟨⟩ | ⟨hc, ⟨⟩⟩ := mapM_eq_ok.1 hneed
  exact ⟨_, need_eq_ok.1 hc, rfl⟩

theorem rowDigests_singleton : (Table.mk [c]).rowDigests [c.name] = .ok c.keys := by
  have hcolumn : (Table.mk [c]).column? c.name = some c := List.find?_cons_of_pos (beq_self_eq_true _)
  have hkeys : (Table.mk [c]).keyColumns [c.name] = .ok [c] := by
    rw [keyColumns, List.mapM_cons, hcolumn]
    rfl
  rw [rowDigests, hkeys, ok_bind, pure_eq_ok, Column.keys, Except.ok.injEq]
  refine List.ext_getElem (by simp [rowCount]) fun i hi hi' => ?_
  rw [List.length_map] at hi'
  simp [cells, hi']

/-- A column without its repetitions is as long as it was only if there were none. -/
theorem dropDuplicates_singleton (h : (Table.mk [c]).dropDuplicates = .ok u) :
    ∃ c', u = ⟨[c']⟩ ∧ (c'.values.length = c.values.length ↔ c.keys.Nodup) := by
  obtain ⟨digests, hdigests, hu⟩ := bind_eq_ok.1 h
  obtain rfl := Except.ok.inj hu
  have hdigests : (Table.mk [c]).rowDigests [c.name] = .ok digests := mapError_eq_ok.1 hdigests
  obtain rfl := Except.ok.inj (rowDigests_singleton.symm.trans hdigests)
  refine ⟨_, rfl, ?_⟩
  have hlen : c.keys.length = c.values.length := List.length_map _
  rw [List.length_map, ← hlen, length_firstPositions_eq_iff]
  simp

/-- A mask of the right length is no reason to refuse a column. -/
theorem filter_spares {mask : List Scalar} (h : mask.length = t.rowCount) :
    FailsOnly FrameError.SparesLengths (t.filter mask) := by
  rw [filter, if_neg (not_not.2 h)]
  exact failsOnly_ok _

theorem assignColumn_spares (name : String) {values : List Scalar} (h : values.length = t.rowCount) :
    FailsOnly FrameError.SparesLengths (t.assignColumn name values) := by
  rw [assignColumn, if_neg fun hne => hne.1 h]
  exact failsOnly_ok _

end Table

/-! ## Operands -/

namespace Op

/-- The table whose rows an expression, a selection or an assignment goes over. -/
def owner? : Op → Option NodeId
  | criterion owner _ | arithmetic owner _ | selection owner _ | assign owner _ _ => some owner
  | _ => none

/-- Is the operation a single column of the table without repetitions, and are there some? -/
def Shortens (t : Table) : Op → Prop
  | projection _ [name] true => ∃ c, t.column? name = some c ∧ ¬c.keys.Nodup
  | _ => False

/-- What goes over the rows of a table has operands that belong to the table. -/
theorem Linked.operand_of_owner? {g : Graph} {op : Op} {owner d : NodeId} (h : op.Linked g)
    (ho : op.owner? = some owner) (hd : d ∈ op.evalSources) : g.Has (·.IsOperandOf owner) d := by
  cases op <;> simp only [owner?, Option.some.injEq, reduceCtorEq] at ho <;> subst ho
  case criterion | arithmetic => exact h.2 d hd
  case selection =>
    obtain rfl := List.mem_singleton.1 hd
    exact h.2.mono fun _ => IsPredicateOf.isOperandOf
  case assign =>
    obtain rfl := List.mem_singleton.1 hd
    exact h.2

end Op

namespace Graph

variable {g : Graph} {fetch : Fetch} {d id owner : NodeId} {n m : Node} {t : Table} {w : Result}
  {values : List Scalar}

theorem length_operandValues {rows : Nat} (h : g.operandValues fetch rows d = .ok values) :
    values.length = rows := by
  obtain ⟨m, -, h⟩ := bind_eq_ok.1 h
  split at h
  · obtain rfl := Except.ok.inj h
    exact List.length_replicate
  · obtain ⟨t, -, h⟩ := bind_eq_ok.1 h
    split at h
    · cases h
    · split at h
      · obtain rfl := Except.ok.inj h
        assumption
      · cases h

/-- An operand that is computed in memory is one column, and it has a value for every row of its table
unless it is a column without its repetitions. -/
theorem InMemory.operand (h : g.InMemory fetch) (hd : g.node? d = some m) (ho : m.op.IsOperandOf owner)
    (hc : ∀ v, m.op ≠ .constant v) (ht : g.inputTable fetch owner = .ok t) (hl : t.Level)
    (hw : fetch d = .ok w) :
    ∃ c, w = .table ⟨[c]⟩ ∧ (c.values.length = t.rowCount ↔ ¬m.op.Shortens t) := by
  have hs : m.op.isSource = false := by
    cases hop : m.op with
    | source => rw [hop] at ho; cases ho
    | _ => rfl
  have hv := evaluates_of_evaluate hd (h hd hs hw)
  have expression {values : List Scalar} (hlen : values.length = t.rowCount)
      (hv : m.expressionTable values = .ok w) :
      ∃ c : Column, w = .table ⟨[c]⟩ ∧ (c.values.length = t.rowCount ↔ ¬False) := by
    rw [Node.expressionTable] at hv
    split at hv
    · cases hv
    · obtain rfl := Except.ok.inj hv
      exact ⟨_, rfl, iff_of_true hlen not_false⟩
  obtain ⟨i, name, op, schema⟩ := m
  cases op <;> simp only [Evaluates, Op.IsOperandOf] at ho hv
  case constant v => exact absurd rfl (hc v)
  case criterion c =>
    subst ho
    obtain ⟨t', values, ht', hvalues, hv⟩ := hv
    obtain rfl := Except.ok.inj (ht.symm.trans ht')
    exact expression (length_criterion (fun _ _ => length_operandValues) hvalues) hv
  case arithmetic e =>
    subst ho
    obtain ⟨t', values, ht', hvalues, hv⟩ := hv
    obtain rfl := Except.ok.inj (ht.symm.trans ht')
    exact expression (length_arithmetic (fun _ _ => length_operandValues) hvalues) hv
  case projection source columns distinct =>
    obtain _ | ⟨name, _ | _⟩ := columns <;> simp only at ho
    subst ho
    obtain ⟨t', selected, u, ht', hselect, hu, rfl⟩ := hv
    obtain rfl := Except.ok.inj (ht.symm.trans ht')
    obtain ⟨c, hcolumn, rfl⟩ := Table.select_singleton hselect
    have hlen : c.values.length = t.rowCount := hl c (List.mem_of_find?_eq_some hcolumn)
    cases distinct with
    | false => exact ⟨c, congrArg _ hu, iff_of_true hlen not_false⟩
    | true =>
      obtain ⟨c', rfl, hiff⟩ := Table.dropDuplicates_singleton hu
      rw [hlen] at hiff
      refine ⟨c', rfl, hiff.trans ⟨?_, fun hnot => ?_⟩⟩
      · rintro hnodup ⟨e, he, hrep⟩
        exact hrep (Option.some.inj (hcolumn.symm.trans he) ▸ hnodup)
      · exact not_not.1 fun hrep => hnot ⟨c, hcolumn, hrep⟩

/-- An operand fills the rows of its table, or is refused because it is a column without its repetitions. -/
theorem InMemory.operandValues (h : g.InMemory fetch) (hd : g.node? d = some m)
    (ho : m.op.IsOperandOf owner) (ht : g.inputTable fetch owner = .ok t) (hl : t.Level)
    (hw : fetch d = .ok w) : Fills t.rowCount (g.operandValues fetch t.rowCount d) ∧
      (Mismatched (g.operandValues fetch t.rowCount d) ↔ m.op.Shortens t) := by
  rw [Graph.operandValues, liftNode_eq_ok.2 hd, ok_bind]
  split
  · rename_i v hop
    refine ⟨.inr ⟨_, rfl, List.length_replicate⟩, iff_of_false (not_mismatched_ok _) ?_⟩
    rw [hop]
    exact not_false
  · rename_i hop
    obtain ⟨c, rfl, hiff⟩ := h.operand hd ho hop ht hl hw
    have hinput : g.inputTable fetch d = .ok ⟨[c]⟩ := inputTable_eq_ok.2 ⟨m, _, hd, hw, rfl⟩
    rw [hinput, ok_bind]
    dsimp only
    split
    · rename_i hlen
      exact ⟨.inr ⟨_, rfl, hlen⟩, iff_of_false (not_mismatched_ok _) (hiff.1 hlen)⟩
    · rename_i hlen
      have hmis : Mismatched (throw (.frame (.length t.rowCount c.values.length)) :
          Except EngineError (List Scalar)) := ⟨_, _, rfl⟩
      exact ⟨.inl hmis, iff_of_true hmis (not_not.1 fun hnot => hlen (hiff.2 hnot))⟩

/-! ## Evaluations -/

/-- An evaluation over the rows of a table refuses a column just if it refuses one of its operands. -/
theorem evaluate_mismatched_iff (hn : g.node? id = some n) (ho : n.op.owner? = some owner)
    (ht : g.inputTable fetch owner = .ok t)
    (h : ∀ d ∈ n.op.evalSources, Fills t.rowCount (g.operandValues fetch t.rowCount d)) :
    Mismatched (g.evaluate fetch id) ↔
      ∃ d ∈ n.op.evalSources, Mismatched (g.operandValues fetch t.rowCount d) := by
  rw [evaluate, liftNode_eq_ok.2 hn, ok_bind]
  have expression (values : List Scalar) : ¬Mismatched (n.expressionTable values) := by
    unfold Node.expressionTable
    split
    · rintro ⟨_, _, h⟩
      cases h
    · exact not_mismatched_ok _
  have table {x : Except FrameError Table} (hx : FailsOnly FrameError.SparesLengths x) :
      ¬Mismatched (do pure (.table (← x)) : Except EngineError Result) := fun hmis =>
    not_mismatched_liftFrame hx ((mismatched_bind_iff_left fun _ _ => not_mismatched_ok _).1 hmis)
  obtain ⟨i, name, op, schema⟩ := n
  cases op <;> simp only [Op.owner?, Option.some.injEq, reduceCtorEq] at ho <;> subst ho <;>
    dsimp only [Op.evalSources] at h ⊢ <;> rw [ht, ok_bind]
  case criterion c =>
    rw [mismatched_bind_iff_left fun values _ => expression values, criterion_mismatched_iff h]
  case arithmetic e =>
    rw [mismatched_bind_iff_left fun values _ => expression values, arithmetic_mismatched_iff h]
  case selection c =>
    simp only [List.mem_singleton, forall_eq, exists_eq_left] at h ⊢
    exact mismatched_bind_iff_left fun mask hmask => table (Table.filter_spares (h.length hmask))
  case assign column v =>
    simp only [List.mem_singleton, forall_eq, exists_eq_left] at h ⊢
    exact mismatched_bind_iff_left fun values hvalues =>
      table (Table.assignColumn_spares column (h.length hvalues))

/-- **Operands are as long as their table, unless they are columns of it without repetitions.** Take a
condition, an arithmetic expression, a selection or an assignment of a graph that constructors built, and
let the table that it goes over and all its operands be computed in memory. Then each operand that is no
constant is one column, which has a value for every row of the table if and only if it is not chosen
without repetitions from a column of the table that has some. So the evaluation refuses a column for its
length if and only if there is such an operand. -/
theorem aligned_iff (hg : g.Constructed) (h : g.InMemory fetch) (hs : g.SuppliesLevel fetch)
    (hn : g.node? id = some n) (ho : n.op.owner? = some owner) (ht : g.inputTable fetch owner = .ok t)
    (hops : ∀ d ∈ n.op.evalSources, ∃ w, fetch d = .ok w) :
    (∀ d ∈ n.op.evalSources, ∀ m, g.node? d = some m → (∀ v, m.op ≠ .constant v) →
      ∃ c, fetch d = .ok (.table ⟨[c]⟩) ∧ (c.values.length = t.rowCount ↔ ¬m.op.Shortens t)) ∧
    (Mismatched (g.evaluate fetch id) ↔ ∃ d ∈ n.op.evalSources, g.Has (·.Shortens t) d) := by
  have hg := hg.wellFormed
  have hlevel : t.Level := by
    obtain ⟨m, w, hm, hw, ht⟩ := inputTable_eq_ok.1 ht
    exact Result.toTable_level (h.level hg hs hm hw) ht
  have operand : ∀ d ∈ n.op.evalSources, ∃ m w, g.node? d = some m ∧ m.op.IsOperandOf owner ∧
      fetch d = .ok w := fun d hd => by
    obtain ⟨m, hm, hop⟩ := (hg.linked hn).operand_of_owner? ho hd
    obtain ⟨w, hw⟩ := hops d hd
    exact ⟨m, w, hm, hop, hw⟩
  refine ⟨fun d hd m hm hc => ?_, ?_⟩
  · obtain ⟨m', w, hm', hop, hw⟩ := operand d hd
    obtain rfl := Option.some.inj (hm.symm.trans hm')
    obtain ⟨c, rfl, hiff⟩ := h.operand hm hop hc ht hlevel hw
    exact ⟨c, hw, hiff⟩
  · have fills : ∀ d ∈ n.op.evalSources, Fills t.rowCount (g.operandValues fetch t.rowCount d) :=
      fun d hd => by
        obtain ⟨m, w, hm, hop, hw⟩ := operand d hd
        exact (h.operandValues hm hop ht hlevel hw).1
    rw [evaluate_mismatched_iff hn ho ht fills]
    refine exists_congr fun d => and_congr_right fun hd => ?_
    obtain ⟨m, w, hm, hop, hw⟩ := operand d hd
    rw [(h.operandValues hm hop ht hlevel hw).2]
    exact ⟨fun hrep => ⟨m, hm, hrep⟩, fun hhas => hhas.of_node? hm⟩

/-- The test for null of a column without its repetitions. -/
def distinctNulls : Graph :=
  ⟨"s", #[⟨0, "ts_0", .source, ⟨[⟨"k", .int64, false⟩]⟩⟩,
    ⟨1, "ts_1", .projection 0 ["k"] true, ⟨[⟨"k", .int64, false⟩]⟩⟩,
    ⟨2, "ts_2", .criterion 0 (.isNull 1), ⟨[⟨"k", .boolean, true⟩]⟩⟩], #[[1, 2], [2], []]⟩

theorem constructed_distinctNulls : distinctNulls.Constructed :=
  .add (r := (2, distinctNulls)) (.add (.add (.empty "s") (.source ⟨[⟨"k", .int64, false⟩]⟩) rfl)
    (.projection 0 ["k"] true) rfl) (.isNull 1) rfl

/-- The column has one value without its repetitions and two rows in its table, and is refused. -/
theorem aligned_iff_distinctNulls : ∃ fetch : Fetch, distinctNulls.InMemory fetch ∧
    fetch 1 = .ok (.table ⟨[⟨"k", [.int 1]⟩]⟩) ∧ Mismatched (distinctNulls.evaluate fetch 2) := by
  let shown (d : NodeId) : Table := ⟨[⟨"k", if d = 0 then [.int 1, .int 1] else [.int 1]⟩]⟩
  let fetch : Fetch := fun d =>
    if d < 2 then .ok (.table (shown d)) else .error (.plan (.invariant (.unknownNode d)))
  have hmemory : distinctNulls.InMemory fetch := by
    rintro (_ | _ | d) n w hn hs hw
    · obtain rfl := Option.some.inj hn
      cases hs
    · obtain rfl := Except.ok.inj hw
      have hv : distinctNulls.evaluate fetch 1 = .ok (.table ⟨[⟨"k", [.int 1]⟩]⟩) := by decide +kernel
      exact hv
    · cases hw
  have hsupplies : distinctNulls.SuppliesLevel fetch := by
    refine ⟨?_, fun {i n} hn source name func hop => ?_⟩
    · rintro (_ | _ | i) n w hn hs hw
      · obtain rfl := Except.ok.inj hw
        exact fun t ht => Result.table.inj ht ▸ Table.level_singleton _
      · obtain rfl := Option.some.inj hn
        cases hs
      · cases hw
    · have hmem := Array.mem_of_getElem? hn
      simp only [distinctNulls, List.mem_toArray, List.mem_cons, List.not_mem_nil, or_false] at hmem
      rcases hmem with rfl | rfl | rfl <;> cases hop
  have hoperands : ∀ d ∈ [1], ∃ w, fetch d = .ok w := fun d hd => by
    obtain rfl := List.mem_singleton.1 hd
    exact ⟨_, rfl⟩
  have hn : distinctNulls.node? 2 = some _ := rfl
  obtain ⟨-, hiff⟩ := aligned_iff constructed_distinctNulls hmemory hsupplies hn rfl (t := shown 0) rfl
    hoperands
  have hrepeats : distinctNulls.Has (·.Shortens (shown 0)) 1 := ⟨_, rfl, _, rfl, by decide⟩
  exact ⟨fetch, hmemory, rfl, hiff.2 ⟨1, List.mem_singleton_self 1, hrepeats⟩⟩

end Graph
end LazyQuery
