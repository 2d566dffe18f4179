import LazyQuery.Proofs.Sql.Portable

/-!
# Operands of expressions

The expression of a portable operand means, row by row, what the operand denotes (`Graph.stands`). It is
an induction over the operands of operands: a condition or an arithmetic expression is reckoned cell by
cell from those of its own operands.

`Graph.Stands` is what the induction carries. It says that the operand has a cell for each row of the
table that it belongs to, in memory and as an expression.
-/

set_option autoImplicit false

namespace LazyQuery

open Sql

/-! ## Expressions, cell by cell -/

/-- An expression that means cells of a table means the same cells where the rows come in another order. -/
theorem Sql.Expr.Means.take {e : Expr} {table : String} {s : Schema} {t : Table} {type : DataType}
    {value : Nat → Scalar} (h : e.Means table s t type value) (hc : t.columns ≠ []) {order : List Nat}
    (horder : order.Perm (List.range t.rowCount)) :
    e.Means table s (t.take order) type fun i => value (order.getD i 0) where
  toHasType := h.toHasType
  admits hi := by
    rw [Table.rowCount_order horder hc] at hi
    exact h.admits (getD_order_lt horder hi)
  eval {scope k row i} hi hs hrow := by
    rw [Table.rowCount_order horder hc] at hi
    refine h.eval (getD_order_lt horder hi) hs fun j f hj => ?_
    rw [hrow j f hj]
    exact congrArg (some ∘ Datum.ofScalar) (Table.cell_order horder hi _)

/-- The cell of a condition, from the cells of its operands. -/
def Criterion.cell (v : NodeId → Scalar) : Criterion → Scalar
  | compare op l r => Elementwise.compareCells op (v l) (v r)
  | like a pattern => Elementwise.likeCell pattern (v a)
  | isNull a => .bool (v a).isNull
  | and l r => Scalar.ofTruth (Elementwise.conjunction (v l).truth? (v r).truth?)
  | or l r => Scalar.ofTruth (Elementwise.disjunction (v l).truth? (v r).truth?)
  | not a => Scalar.ofTruth ((v a).truth?.map (!·))

/-- The cell of an arithmetic expression, from the cells of its operands. -/
def Arithmetic.cell (v : NodeId → Scalar) : Arithmetic → Except FrameError Scalar
  | binary op l r => Elementwise.arithCells op (v l) (v r)
  | unary op a => Elementwise.unaryCell op (v a)

section Cells

variable {operand : NodeId → Except EngineError (List Scalar)} {rows : List Nat}
  {v : NodeId → Nat → Scalar}

/-- The values of a condition are its cells, row by row. -/
theorem Criterion.values_map {c : Criterion} (h : ∀ a ∈ c.operands, operand a = .ok (rows.map (v a))) :
    c.values operand = .ok (rows.map fun i => c.cell (v · i)) := by
  cases c <;> simp only [operands, List.mem_cons, List.not_mem_nil, or_false, forall_eq_or_imp,
    forall_eq] at h
  case compare op l r =>
    rw [values, h.1, ok_bind, h.2, ok_bind, Elementwise.compare, Elementwise.checkLength,
      if_pos (by simp), List.zipWith_map, List.zipWith_self]
    rfl
  case and l r =>
    rw [values, h.1, ok_bind, h.2, ok_bind]
    simp [Elementwise.logical, Elementwise.checkLength, List.zipWith_map, List.zipWith_self, cell]
    rfl
  case or l r =>
    rw [values, h.1, ok_bind, h.2, ok_bind]
    simp [Elementwise.logical, Elementwise.checkLength, List.zipWith_map, List.zipWith_self, cell]
    rfl
  case like a pattern =>
    rw [values, h, ok_bind, Elementwise.like, List.map_map]
    rfl
  case isNull a =>
    rw [values, h, ok_bind, Elementwise.isNull, List.map_map]
    rfl
  case not a =>
    rw [values, h, ok_bind, Elementwise.not, List.map_map]
    rfl

/-- The values of an arithmetic expression are its cells, row by row. -/
theorem Arithmetic.values_map {e : Arithmetic} {value : Nat → Scalar}
    (h : ∀ a ∈ e.operands, operand a = .ok (rows.map (v a)))
    (hv : ∀ i ∈ rows, e.cell (v · i) = .ok (value i)) :
    e.values operand = .ok (rows.map value) := by
  cases e <;> simp only [operands, List.mem_cons, List.not_mem_nil, or_false, forall_eq_or_imp,
    forall_eq] at h
  case binary op l r =>
    rw [values, h.1, ok_bind, h.2, ok_bind, Elementwise.arith, Elementwise.checkLength,
      if_pos (by simp), List.zip_map', pure_eq_ok, ok_bind, List.mapM_map]
    exact mapError_eq_ok.2 (mapM_eq_map hv)
  case unary op a =>
    rw [values, h, ok_bind, Elementwise.unary, List.mapM_map]
    exact mapError_eq_ok.2 (mapM_eq_map hv)

end Cells

/-! ## Operands -/

namespace Graph

variable {g : Graph} {base : BaseTables} {owner a : NodeId} {m n : Node} {t : Table} {f : Field}
  {value : Nat → Scalar}

/-- The operand has a cell for each row of a table, and its expression yields them. -/
structure Stands (g : Graph) (base : BaseTables) (m : Node) (t : Table) (a : NodeId) (f : Field)
    (value : Nat → Scalar) : Prop where
  field : g.operandField a = .ok f
  plain : f.type.isPlain = true
  means : ∀ fuel, a < fuel → ∃ e, g.expressionWithin fuel a = .ok e ∧
    e.Means m.name m.schema t f.type value
  values : g.operandValues (g.denote base) t.rowCount a = .ok ((List.range t.rowCount).map value)
  denotes : g.Has (·.isTable = true) a →
    g.denote base a = .ok (.table ⟨[⟨f.name, (List.range t.rowCount).map value⟩]⟩)

/-- A node whose schema is one field is an operand with that field. -/
theorem operandField_eq_ok (hn : g.node? a = some n) {rest : List Field}
    (hs : n.schema.fields = f :: rest) : g.operandField a = .ok f := by
  rw [operandField, node_eq_ok.2 hn, ok_bind, hs]
  rfl

/-- The first column of what an operand denotes holds its values. -/
theorem operandValues_eq_ok (hn : g.node? a = some n) (hop : ∀ v, n.op ≠ .constant v) {c : Column}
    {rest : List Column} (hden : g.denote base a = .ok (.table ⟨c :: rest⟩)) :
    g.operandValues (g.denote base) c.values.length a = .ok c.values := by
  have htable : g.inputTable (g.denote base) a = .ok ⟨c :: rest⟩ := by
    rw [inputTable, inputValue, hden, ok_bind, node_eq_ok.2 hn]
    rfl
  rw [operandValues, node_eq_ok.2 hn]
  change (Except.ok n >>= _) = _
  rw [ok_bind]
  split
  · rename_i v h
    exact absurd h (hop v)
  · rw [htable, ok_bind]
    exact if_pos rfl

/-- A node that denotes one column stands for it in expressions. -/
theorem stands_of_denote (hn : g.node? a = some n) (hs : n.schema.fields = [f])
    (hop : ∀ v, n.op ≠ .constant v) (hf : f.type.isPlain = true)
    (hden : g.denote base a = .ok (.table ⟨[⟨f.name, (List.range t.rowCount).map value⟩]⟩))
    (hmeans : ∀ fuel, a < fuel → ∃ e, g.expressionWithin fuel a = .ok e ∧
      e.Means m.name m.schema t f.type value) : g.Stands base m t a f value := by
  refine ⟨operandField_eq_ok hn hs, hf, hmeans, ?_, fun _ => hden⟩
  have hvalues := operandValues_eq_ok hn hop hden
  rwa [List.length_map, List.length_range] at hvalues

theorem evaluate_criterion {c : Criterion} {fetch : Fetch} {vs : List Scalar}
    (hn : g.node? a = some n) (hop : n.op = .criterion owner c) (hs : n.schema.fields = [f])
    (ht : g.inputTable fetch owner = .ok t)
    (hv : c.values (g.operandValues fetch t.rowCount) = .ok vs) :
    g.evaluate fetch a = .ok (.table ⟨[⟨f.name, vs⟩]⟩) := by
  obtain ⟨i, name, op, ⟨fields⟩⟩ := n
  subst hop hs
  rw [evaluate, node_eq_ok.2 hn]
  change (g.inputTable fetch owner >>= _) = _
  rw [ht, ok_bind, hv]
  rfl

theorem evaluate_arithmetic {e : Arithmetic} {fetch : Fetch} {vs : List Scalar}
    (hn : g.node? a = some n) (hop : n.op = .arithmetic owner e) (hs : n.schema.fields = [f])
    (ht : g.inputTable fetch owner = .ok t)
    (hv : e.values (g.operandValues fetch t.rowCount) = .ok vs) :
    g.evaluate fetch a = .ok (.table ⟨[⟨f.name, vs⟩]⟩) := by
  obtain ⟨i, name, op, ⟨fields⟩⟩ := n
  subst hop hs
  rw [evaluate, node_eq_ok.2 hn]
  change (g.inputTable fetch owner >>= _) = _
  rw [ht, ok_bind, hv]
  rfl

theorem Stands.admits (h : g.Stands base m t a f value) {i : Nat} (hi : i < t.rowCount) :
    f.type.admits (value i) = true := by
  obtain ⟨e, -, he⟩ := h.means (a + 1) (Nat.lt_succ_self a)
  exact he.admits hi

/-- A condition is an operand with truth values. -/
theorem Stands.type_eq_boolean (h : g.Stands base m t a f value) (hg : g.WellFormed)
    (hc : g.Has (·.IsCriterion) a) : f.type = .boolean := by
  obtain ⟨n, hn, hop⟩ := hc
  have hs := hg.hasSchema hn
  obtain ⟨i, name, op, s⟩ := n
  cases op <;> simp only [Op.IsCriterion] at hop
  obtain ⟨⟨column, rfl⟩, -⟩ := hs
  have hf := h.field
  rw [operandField_eq_ok hn rfl, Except.ok.injEq] at hf
  rw [← hf]

/-- An operand of arithmetic with plain cells has whole numbers. -/
theorem Stands.isIntegral (h : g.Stands base m t a f value) {type : DataType}
    (hn : g.numericOperand a = .ok type) : type = f.type ∧ f.type.isIntegral = true := by
  rw [numericOperand, h.field, ok_bind] at hn
  dsimp only at hn
  split at hn
  · rename_i hnum
    cases hn
    refine ⟨rfl, ?_⟩
    have hp := h.plain
    revert hnum hp
    cases f.type <;> decide
  · cases hn

/-- The result of arithmetic on whole numbers is one, unless they are divided. -/
theorem resultType_binary {op : ArithOp} {t u : DataType} (hop : op ≠ .div) (ht : t.isIntegral = true)
    (hu : u.isIntegral = true) : op.resultType t u = .int64 := by
  cases op <;> cases t <;> cases u <;> first | rfl | contradiction

theorem resultType_unary {op : UnaryOp} {t : DataType} (ht : t.isIntegral = true) :
    op.resultType t = .int64 := by
  cases op <;> cases t <;> first | rfl | contradiction

section Operands

variable {fields : NodeId → Field} {v : NodeId → Nat → Scalar} {fuel : Nat}

/-- The expression of a condition means its cells. -/
theorem expressionWithin_criterion (hg : g.WellFormed) {c : Criterion} (hn : g.node? a = some n)
    (hop : n.op = .criterion owner c) (hc : c.isPortable = true) (htyped : c.Typed g)
    (h : ∀ b ∈ c.operands, b < fuel ∧ g.Stands base m t b (fields b) (v b)) :
    ∃ e, g.expressionWithin (fuel + 1) a = .ok e ∧
      e.Means m.name m.schema t .boolean fun i => c.cell (v · i) := by
  obtain ⟨i, name, op, s⟩ := n
  subst hop
  rw [expressionWithin, node_eq_ok.2 hn, ok_bind]
  cases c <;> simp only [Criterion.operands, List.mem_cons, List.not_mem_nil, or_false,
    forall_eq_or_imp, forall_eq] at h
  case like => cases hc
  case compare op l r =>
    obtain ⟨⟨hl, hv⟩, hr, hw⟩ := h
    obtain ⟨f, f', hf, hf', hcomp⟩ := htyped
    obtain rfl := Except.ok.inj (hv.field.symm.trans hf)
    obtain rfl := Except.ok.inj (hw.field.symm.trans hf')
    obtain ⟨el, hel, hlm⟩ := hv.means fuel hl
    obtain ⟨er, her, hrm⟩ := hw.means fuel hr
    refine ⟨.compare op el er, ?_, .compare hlm hrm hcomp⟩
    dsimp only
    rw [hel, her]
    rfl
  case and l r =>
    obtain ⟨⟨hl, hv⟩, hr, hw⟩ := h
    obtain ⟨el, hel, hlm⟩ := hv.means fuel hl
    obtain ⟨er, her, hrm⟩ := hw.means fuel hr
    rw [hv.type_eq_boolean hg htyped.1] at hlm
    rw [hw.type_eq_boolean hg htyped.2] at hrm
    refine ⟨.and el er, ?_, .and hlm hrm⟩
    dsimp only
    rw [hel, her]
    rfl
  case or l r =>
    obtain ⟨⟨hl, hv⟩, hr, hw⟩ := h
    obtain ⟨el, hel, hlm⟩ := hv.means fuel hl
    obtain ⟨er, her, hrm⟩ := hw.means fuel hr
    rw [hv.type_eq_boolean hg htyped.1] at hlm
    rw [hw.type_eq_boolean hg htyped.2] at hrm
    refine ⟨.or el er, ?_, .or hlm hrm⟩
    dsimp only
    rw [hel, her]
    rfl
  case isNull b =>
    obtain ⟨e, he, hem⟩ := h.2.means fuel h.1
    refine ⟨.isNull e, ?_, .isNull hem⟩
    dsimp only
    rw [he]
    rfl
  case not b =>
    obtain ⟨e, he, hem⟩ := h.2.means fuel h.1
    rw [h.2.type_eq_boolean hg htyped] at hem
    refine ⟨.not e, ?_, .not hem⟩
    dsimp only
    rw [he]
    rfl

/-- Portable operands can be reckoned with. The result is a whole number, if it is plain, and the
expression means it. -/
theorem expressionWithin_arithmetic {e : Arithmetic} (hn : g.node? a = some n)
    (hop : n.op = .arithmetic owner e) (he : e.isPortable = true) {type : DataType}
    (htype : e.HasType g type) (h : ∀ b ∈ e.operands, g.Stands base m t b (fields b) (v b)) :
    type = .int64 ∧ ∃ value : Nat → Scalar, (∀ i < t.rowCount, e.cell (v · i) = .ok (value i)) ∧
      ((∀ i < t.rowCount, (value i).isPlain = true) → ∀ fuel, (∀ b ∈ e.operands, b < fuel) →
        ∃ x, g.expressionWithin (fuel + 1) a = .ok x ∧ x.Means m.name m.schema t .int64 value) := by
  obtain ⟨i, name, op, s⟩ := n
  subst hop
  cases e <;> simp only [Arithmetic.operands, List.mem_cons, List.not_mem_nil, or_false,
    forall_eq_or_imp, forall_eq] at h ⊢
  case binary op l r =>
    obtain ⟨hv, hw⟩ := h
    obtain ⟨tl, tr, htl, htr, rfl⟩ := htype
    obtain ⟨rfl, hi⟩ := hv.isIntegral htl
    obtain ⟨rfl, hi'⟩ := hw.isIntegral htr
    have hop : op ≠ .div := by
      rintro rfl
      cases he
    have hcell : ∀ i < t.rowCount, ∃ z, Elementwise.arithCells op (v l i) (v r i) = .ok z :=
      fun i hlt => ⟨_, by
        rw [Elementwise.arithCells, checkNumeric_eq_ok hi (hv.admits hlt),
          checkNumeric_eq_ok hi' (hw.admits hlt)]
        rfl⟩
    choose! value hvalue using hcell
    refine ⟨resultType_binary hop hi hi', value, hvalue, fun hplain fuel hlt => ?_⟩
    obtain ⟨el, hel, hlm⟩ := hv.means fuel hlt.1
    obtain ⟨er, her, hrm⟩ := hw.means fuel hlt.2
    refine ⟨op.expr el er, ?_, .arith hlm hrm hi hi' hop (hvalue _) (hplain _)⟩
    rw [expressionWithin, node_eq_ok.2 hn, ok_bind]
    dsimp only
    rw [hel, her]
    rfl
  case unary op b =>
    obtain ⟨tb, htb, rfl⟩ := htype
    obtain ⟨rfl, hi⟩ := h.isIntegral htb
    have hcell : ∀ i < t.rowCount, ∃ z, Elementwise.unaryCell op (v b i) = .ok z :=
      fun i hlt => ⟨_, by
        unfold Elementwise.unaryCell
        rw [checkNumeric_eq_ok hi (h.admits hlt)]
        rfl⟩
    choose! value hvalue using hcell
    refine ⟨resultType_unary hi, value, hvalue, fun hplain fuel hlt => ?_⟩
    obtain ⟨x, hx, hxm⟩ := h.means fuel hlt
    refine ⟨op.expr x, ?_, .unary hxm hi (hvalue _) (hplain _)⟩
    rw [expressionWithin, node_eq_ok.2 hn, ok_bind]
    dsimp only
    rw [hx]
    rfl

end Operands

theorem stands_constant {x : Scalar} (hn : g.node? a = some n) (hop : n.op = .constant x)
    (hs : n.op.HasSchema g n.schema) (hx : x.isPlain = true) :
    ∃ f value, g.Stands base m t a f value := by
  obtain ⟨i, name, op, s⟩ := n
  subst hop
  obtain rfl := hs
  refine ⟨_, fun _ => x, operandField_eq_ok hn rfl, ?_, fun fuel hf => ?_, ?_, ?_⟩
  · revert hx
    cases x <;> first | exact fun _ => rfl | exact fun h => h
  · cases fuel with
    | zero => exact absurd hf (Nat.not_lt_zero a)
    | succ fuel =>
      refine ⟨.literal x, ?_, .literal hx⟩
      rw [expressionWithin, node_eq_ok.2 hn]
      rfl
  · rw [operandValues, node_eq_ok.2 hn]
    change Except.ok (List.replicate t.rowCount x) = _
    rw [List.map_const', List.length_range]
  · rintro ⟨n, hn', htable⟩
    rw [hn, Option.some.injEq] at hn'
    subst hn'
    cases htable

theorem stands_column {c : String} (hg : g.WellFormed) (hb : g.Based base) (hm : g.node? owner = some m)
    (ht : t.Conforms m.schema) (htable : g.inputTable (g.denote base) owner = .ok t)
    (hn : g.node? a = some n) (hop : n.op = .projection owner [c] false) (hd : n.schema.Distinct) :
    ∃ f value, g.Stands base m t a f value := by
  have hschema := hg.hasSchema hn
  obtain ⟨k, name, op, ⟨fields⟩⟩ := n
  subst hop
  obtain ⟨-, -, i, hi, hproject⟩ := hschema
  obtain rfl := schema_eq hi hm
  have hfields := Schema.project_eq_ok hproject
  obtain ⟨columns, hselect, hcol, hconf⟩ := Table.select_ok ht hproject hd
  obtain ⟨⟩ | ⟨hf, ⟨⟩⟩ := hfields
  obtain ⟨⟩ | ⟨hc, ⟨⟩⟩ := hcol
  obtain ⟨⟩ | ⟨hconf, -⟩ := hconf
  rename_i f col
  have hcolumn : col = ⟨f.name, (List.range t.rowCount).map (t.cell c)⟩ := by
    obtain ⟨columnName, values⟩ := col
    rw [Column.mk.injEq]
    exact ⟨hconf.name, ht.values_eq hc⟩
  have hden : g.denote base a = .ok (.table ⟨[col]⟩) := by
    refine denote_eq_ok hg hb hn rfl ?_
    rw [evaluate, node_eq_ok.2 hn]
    change (g.inputTable (g.denote base) owner >>= _) = _
    rw [htable, ok_bind, hselect]
    rfl
  rw [hcolumn] at hden
  refine ⟨f, t.cell c, stands_of_denote hn rfl (fun v h => (by cases h)) hconf.isPlain hden
    fun fuel hfuel => ?_⟩
  cases fuel with
  | zero => exact absurd hfuel (Nat.not_lt_zero a)
  | succ fuel =>
    refine ⟨.column m.name c, ?_, .column m.name ht hf⟩
    rw [expressionWithin, node_eq_ok.2 hn, ok_bind]
    dsimp only
    rw [node_eq_ok.2 hm]
    rfl

/-- **The expression of an operand means what the operand denotes**, for each row of its table. -/
theorem stands (hg : g.WellFormed) (hb : g.Based base) (hm : g.node? owner = some m)
    (ht : t.Conforms m.schema) (htable : g.inputTable (g.denote base) owner = .ok t)
    (hn : g.node? a = some n) (ho : n.op.IsOperandOf owner) (hr : n.op.isRowwise = true)
    (hp : g.Portable base a) : ∃ f value, g.Stands base m t a f value := by
  induction a using Nat.strongRecOn generalizing n with
  | ind a ih =>
    have hportable := hp.node hn
    have hschema := hg.hasSchema hn
    have hlinked := hg.linked hn
    have operand {d : NodeId} (hd : d ∈ n.op.inputs) (ho : g.Has (·.IsOperandOf owner) d)
        (hr : g.Has (·.isRowwise = true) d) : d < a ∧ ∃ f value, g.Stands base m t d f value := by
      obtain ⟨n', hn', ho⟩ := ho
      obtain ⟨n'', hn'', hr⟩ := hr
      rw [hn', Option.some.injEq] at hn''
      subst hn''
      have hlt := hg.input_lt hn d hd
      exact ⟨hlt, ih d hlt hn' ho hr (hp.input hn hd)⟩
    have denoted {v : Result} (hs : n.op.isSource = false)
        (hv : g.evaluate (g.denote base) a = .ok v) : g.denote base a = .ok v :=
      denote_eq_ok hg hb hn hs hv
    obtain ⟨k, name, op, s⟩ := n
    dsimp only at *
    cases op <;> simp only [Op.IsOperandOf] at ho
    case constant x => exact stands_constant hn rfl hschema hportable.op
    case projection table columns distinct =>
      obtain _ | ⟨c, _ | _⟩ := columns <;> simp only at ho
      subst ho
      obtain rfl : distinct = false := by simpa [Op.isRowwise] using hr
      exact stands_column hg hb hm ht htable hn rfl hportable.distinct
    case criterion o c =>
      subst ho
      obtain ⟨⟨column, rfl⟩, htyped⟩ := hschema
      have stood : ∀ b ∈ c.operands, ∃ f v, b < a ∧ g.Stands base m t b f v := fun b hb => by
        obtain ⟨hlt, f, v, h⟩ := operand (List.mem_append_right _ hb) (hlinked.2 b hb)
          (hportable.op.2 b hb)
        exact ⟨f, v, hlt, h⟩
      choose! fields v hlt h using stood
      have hden := denoted rfl (evaluate_criterion hn rfl rfl htable
        (Criterion.values_map fun b hb => (h b hb).values))
      refine ⟨_, _, stands_of_denote hn rfl (fun v h => (by cases h)) rfl hden fun fuel hf => ?_⟩
      cases fuel with
      | zero => exact absurd hf (Nat.not_lt_zero a)
      | succ fuel =>
        exact expressionWithin_criterion hg hn rfl hportable.op.1 htyped fun b hb =>
          ⟨Nat.lt_of_lt_of_le (hlt b hb) (Nat.le_of_lt_succ hf), h b hb⟩
    case arithmetic o e =>
      subst ho
      obtain ⟨column, type, rfl, htype⟩ := hschema
      have stood : ∀ b ∈ e.operands, ∃ f v, b < a ∧ g.Stands base m t b f v := fun b hb => by
        obtain ⟨hlt, f, v, h⟩ := operand (List.mem_append_right _ hb) (hlinked.2 b hb)
          (hportable.op.2 b hb)
        exact ⟨f, v, hlt, h⟩
      choose! fields v hlt h using stood
      obtain ⟨rfl, value, hvalue, hmeans⟩ := expressionWithin_arithmetic hn rfl hportable.op.1 htype h
      have hden := denoted rfl (evaluate_arithmetic hn rfl rfl htable (Arithmetic.values_map
        (fun b hb => (h b hb).values) fun i hi => hvalue i (List.mem_range.1 hi)))
      -- No integer has left its range, so that the values are plain.
      have hplain : ∀ i < t.rowCount, (value i).isPlain = true := fun i hi =>
        hportable.inRange _ hden _ (List.mem_singleton_self _) _
          (List.mem_map_of_mem (List.mem_range.2 hi))
      refine ⟨_, value, stands_of_denote hn rfl (fun v h => (by cases h)) rfl hden fun fuel hf => ?_⟩
      cases fuel with
      | zero => exact absurd hf (Nat.not_lt_zero a)
      | succ fuel =>
        exact hmeans hplain fuel fun b hb =>
          Nat.lt_of_lt_of_le (hlt b hb) (Nat.le_of_lt_succ hf)

end Graph
end LazyQuery
