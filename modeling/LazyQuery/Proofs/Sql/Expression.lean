import LazyQuery.Elementwise
import LazyQuery.Proofs.Scalar.Word
import LazyQuery.Proofs.Sql.Relation
import LazyQuery.Sql.Compile

/-!
# What expressions mean

In a query that has a table in scope, `Expr.HasType` says that an expression can be computed, with an
affinity that suits a type. `Expr.Means e table s t type value` says moreover that its value in row
number `i` is what is stored of the cell `value i`, which is one of the type. There is a lemma for each
way to build an expression. It says that the operator on stored values does what the operator on cells
does.

Numbers are integers here: an integer that leaves 64 bits would become a float, which is not plain.
-/

set_option autoImplicit false

namespace LazyQuery

open Sql

/-- Is the type that of an operand of arithmetic on plain cells? -/
def DataType.isIntegral : DataType → Bool
  | null | boolean | int64 => true
  | float64 | utf8 | binary => false

namespace Sql

/-! ## Operators on values -/

variable {x y z : Scalar}

/-- A cell of a numeric type is missing or an integer. -/
theorem cases_of_isIntegral {t : DataType} (ht : t.isIntegral = true) (h : t.admits x = true) :
    x = .null ∨ ∃ i, x.int? = some i ∧ x.isNull = false ∧ Elementwise.intOf x = i ∧
      Datum.ofScalar x = .integer i := by
  cases x with
  | null => exact .inl rfl
  | bool b => exact .inr ⟨_, rfl, rfl, rfl, rfl⟩
  | int i => exact .inr ⟨_, rfl, rfl, rfl, rfl⟩
  | float x => simp [DataType.admits, Scalar.isPlain] at h
  | text s => cases t <;> simp_all [DataType.admits, DataType.isIntegral, Scalar.isNull, Scalar.dataType]
  | blob b => simp [DataType.admits, Scalar.isPlain] at h

theorem checkNumeric_eq_ok {t : DataType} (ht : t.isIntegral = true) (h : t.admits x = true)
    (op : String) : Elementwise.checkNumeric op x = .ok () := by
  cases x with
  | null | bool b | int i => rfl
  | float x => rfl
  | text s => cases t <;> simp_all [DataType.admits, DataType.isIntegral, Scalar.isNull, Scalar.dataType]
  | blob b => simp [DataType.admits, Scalar.isPlain] at h

theorem truth?_ofScalar {t : DataType} (ht : t.isIntegral = true) (h : t.admits x = true) :
    (Datum.ofScalar x).truth? = x.truth? := by
  cases x with
  | null => rfl
  | bool b => cases b <;> rfl
  | int i => rfl
  | float x => simp [DataType.admits, Scalar.isPlain] at h
  | text s => cases t <;> simp_all [DataType.admits, DataType.isIntegral, Scalar.isNull, Scalar.dataType]
  | blob b => simp [DataType.admits, Scalar.isPlain] at h

theorem ofScalar_ofTruth (o : Option Bool) : Datum.ofScalar (Scalar.ofTruth o) = Datum.ofTruth o := by
  cases o <;> rfl

theorem admits_ofTruth (o : Option Bool) : DataType.boolean.admits (Scalar.ofTruth o) = true := by
  cases o <;> rfl

theorem truth?_ofTruth (o : Option Bool) : (Datum.ofTruth o).truth? = o := by
  cases o with
  | none => rfl
  | some b => cases b <;> rfl

theorem ofLiteral_eq (h : x.isPlain = true) : Datum.ofLiteral x = Datum.ofScalar x := by
  cases x <;> first | rfl | exact absurd h Bool.false_ne_true

/-- A comparison of stored values is one of the cells. -/
theorem applyCompare_eq {a b : Affinity} {t u : DataType} {op : CompareOp} (ha : a.suits t = true)
    (hb : b.suits u = true) (hx : t.admits x = true) (hy : u.admits y = true)
    (htu : t.comparableWith u = true) :
    Expr.applyCompare op a (Datum.ofScalar x) b (Datum.ofScalar y) =
      Datum.ofScalar (Elementwise.compareCells op x y) := by
  have hpx := DataType.isPlain_of_admits hx
  have hpy := DataType.isPlain_of_admits hy
  rw [Expr.applyCompare, Elementwise.compareCells, Datum.isNull_ofScalar hpx,
    Datum.isNull_ofScalar hpy]
  by_cases hnull : (x.isNull || y.isNull) = true
  · rw [if_pos hnull, if_pos hnull]
    rfl
  · rw [if_neg hnull, if_neg hnull]
    rw [Bool.or_eq_true, not_or, Bool.not_eq_true, Bool.not_eq_true] at hnull
    rw [Affinity.comparable_eq ha hb hx hy htu hnull.1 hnull.2]
    dsimp only
    rw [Scalar.compare_ofScalar hpx hpy]
    rfl

/-- An operator on stored integers is one on the cells, as long as the result is plain. -/
theorem eval_arith {t u : DataType} {op : ArithOp} {l r : Expr} (scope : Scope) (row : List Datum)
    (ht : t.isIntegral = true) (hu : u.isIntegral = true) (hx : t.admits x = true)
    (hy : u.admits y = true) (hl : l.eval scope row = Datum.ofScalar x)
    (hr : r.eval scope row = Datum.ofScalar y) (hop : op ≠ .div)
    (hz : Elementwise.arithCells op x y = .ok z) (hzp : z.isPlain = true) :
    (op.expr l r).eval scope row = Datum.ofScalar z ∧ DataType.int64.admits z = true := by
  rw [Elementwise.arithCells, checkNumeric_eq_ok ht hx, checkNumeric_eq_ok hu hy, ok_bind, ok_bind,
    pure_eq_ok, Except.ok.injEq] at hz
  have whole {o : Option Int64} {d : Double} (h : (Elementwise.intOrFloat o d).isPlain = true) :
      ∃ k, o = some k := by
    cases o with
    | some k => exact ⟨k, rfl⟩
    | none => exact absurd h Bool.false_ne_true
  rcases cases_of_isIntegral ht hx with rfl | ⟨i, hi, hin, hii, hid⟩
  · subst hz
    rw [show Datum.ofScalar .null = .null from rfl] at hl
    cases op <;> simp_all [ArithOp.expr, Expr.eval, Expr.applyNumOp, Datum.toNumber, Datum.isNull,
      Scalar.isNull, Datum.ofScalar]
  rcases cases_of_isIntegral hu hy with rfl | ⟨j, hj, hjn, hjj, hjd⟩
  · rw [show Scalar.isNull .null = true from rfl, Bool.or_true, if_pos rfl] at hz
    subst hz
    rw [show Datum.ofScalar .null = .null from rfl] at hr
    cases op <;> simp_all [ArithOp.expr, Expr.eval, Expr.applyNumOp, Datum.toNumber, Datum.isNull,
      Datum.ofScalar]
  rw [hin, hjn, Bool.or_self, if_neg Bool.false_ne_true] at hz
  unfold Elementwise.arithNumbers at hz
  simp only [hii, hjj, Elementwise.bothInt, hi, hj, Option.isSome_some, Bool.and_self,
    if_true] at hz
  rw [hid] at hl
  rw [hjd] at hr
  cases op with
  | add | sub | mul =>
    rw [← hz] at hzp ⊢
    obtain ⟨k, hk⟩ := whole hzp
    simp [ArithOp.expr, Expr.eval, Expr.applyNumOp, hl, hr, hk, Datum.toNumber, Datum.isNull,
      Elementwise.intOrFloat, Datum.ofScalar, DataType.admits, Scalar.isPlain, Scalar.dataType]
  | div => exact absurd rfl hop
  | rem =>
    by_cases h0 : j = 0
    · rw [if_pos h0] at hz
      subst hz
      simp [ArithOp.expr, Expr.eval, Expr.applyNumOp, hl, hr, Datum.toNumber, Datum.isNull,
        Datum.ofScalar, h0]
    · rw [if_neg h0] at hz
      subst hz
      simp [ArithOp.expr, Expr.eval, Expr.applyNumOp, hl, hr, Datum.toNumber, Datum.isNull,
        Datum.ofScalar, h0, DataType.admits, Scalar.isPlain, Scalar.dataType]
  | bitAnd | bitOr | bitXor =>
    subst hz
    simp [ArithOp.expr, Expr.eval, Expr.applyNumOp, hl, hr, Datum.toNumber, Datum.isNull,
      Datum.toInt, Datum.ofScalar, DataType.admits, Scalar.isPlain, Scalar.dataType, Word.sub?_or_and]

theorem eval_unary {t : DataType} {op : UnaryOp} {e : Expr} (scope : Scope) (row : List Datum)
    (ht : t.isIntegral = true) (hx : t.admits x = true) (he : e.eval scope row = Datum.ofScalar x)
    (hz : Elementwise.unaryCell op x = .ok z) (hzp : z.isPlain = true) :
    (op.expr e).eval scope row = Datum.ofScalar z ∧ DataType.int64.admits z = true := by
  unfold Elementwise.unaryCell at hz
  rw [checkNumeric_eq_ok ht hx, ok_bind, pure_eq_ok, Except.ok.injEq] at hz
  rcases cases_of_isIntegral ht hx with rfl | ⟨i, hi, hin, hii, hid⟩
  · subst hz
    rw [show Datum.ofScalar .null = .null from rfl] at he
    cases op <;> simp [UnaryOp.expr, Expr.eval, Expr.applyNumOp, he, Datum.toNumber, Datum.isNull,
      Datum.ofScalar]
  rw [hid] at he
  have hnf : ∀ d, x ≠ .float d := by
    rintro d rfl
    cases hi
  cases op with
  | neg =>
    have hz' : Elementwise.intOrFloat (Word.neg? i) (-doubleOfInt i) = z := by
      rw [← hz, ← hii]
      cases x <;> simp_all [Scalar.isNull]
    subst hz'
    cases hk : Word.neg? i with
    | none =>
      rw [hk] at hzp
      exact absurd hzp Bool.false_ne_true
    | some k =>
      have hsub : Word.sub? 0 i = some k := by
        rw [← hk, Word.sub?, Word.neg?]
        simp
      simp [UnaryOp.expr, Expr.eval, Expr.applyNumOp, he, Datum.toNumber, Datum.isNull, hsub,
        Elementwise.intOrFloat, Datum.ofScalar, DataType.admits, Scalar.isPlain, Scalar.dataType]
  | bitNot =>
    have hz' : .int (~~~i) = z := by
      rw [← hz, ← hii]
      cases x <;> simp_all [Scalar.isNull]
    subst hz'
    simp [UnaryOp.expr, Expr.eval, he, Datum.toInt, Datum.ofScalar, DataType.admits, Scalar.isPlain,
      Scalar.dataType]

/-! ## Types -/

/-- The expression can be computed for the rows of a table that is in scope, with values of a type. -/
structure Expr.HasType (e : Expr) (table : String) (s : Schema) (type : DataType) : Prop where
  single : e.isAggregate = false
  found : ∀ {scope k}, scope.Shows table s k → e.wellScoped scope = true
  computed : ∀ {scope k}, scope.Shows table s k → e.isRefused scope = false
  suits : ∀ {scope k}, scope.Shows table s k → (e.affinity scope).suits type = true

namespace Expr.HasType

variable {e l r : Expr} {table : String} {s : Schema} {type type' : DataType}

theorem literal (x : Scalar) : HasType (.literal x) table s x.dataType :=
  ⟨rfl, fun _ => rfl, fun _ => rfl, fun _ => rfl⟩

theorem column {name : String} {f : Field} (hf : s.field? name = some f) :
    HasType (.column table name) table s f.type where
  single := rfl
  found h := by
    obtain ⟨j, b, -, hindex, -, -⟩ := h.column hf
    rw [wellScoped, hindex]
    rfl
  computed h := by
    obtain ⟨j, b, -, hindex, hb, hfits⟩ := h.column hf
    rw [isRefused, hindex, Option.any_some, Scope.isRefusedAt, hb, Option.any_some, hfits.computed]
  suits h := by
    obtain ⟨j, b, -, hindex, hb, hfits⟩ := h.column hf
    rw [affinity, hindex, Option.map_some, Option.getD_some, Scope.affinityAt, hb]
    exact hfits.suits

theorem compare {op : CompareOp} (hl : l.HasType table s type) (hr : r.HasType table s type') :
    HasType (.compare op l r) table s .boolean where
  single := rfl
  found h := by rw [wellScoped, hl.found h, hr.found h]; rfl
  computed h := by rw [isRefused, hl.computed h, hr.computed h]; rfl
  suits _ := rfl

theorem isNull (he : e.HasType table s type) : HasType (.isNull e) table s .boolean :=
  ⟨rfl, fun h => he.found h, fun h => he.computed h, fun _ => rfl⟩

theorem and (hl : l.HasType table s type) (hr : r.HasType table s type') :
    HasType (.and l r) table s .boolean where
  single := rfl
  found h := by rw [wellScoped, hl.found h, hr.found h]; rfl
  computed h := by rw [isRefused, hl.computed h, hr.computed h]; rfl
  suits _ := rfl

theorem or (hl : l.HasType table s type) (hr : r.HasType table s type') :
    HasType (.or l r) table s .boolean where
  single := rfl
  found h := by rw [wellScoped, hl.found h, hr.found h]; rfl
  computed h := by rw [isRefused, hl.computed h, hr.computed h]; rfl
  suits _ := rfl

theorem not (he : e.HasType table s type) : HasType (.not e) table s .boolean :=
  ⟨rfl, fun h => he.found h, fun h => he.computed h, fun _ => rfl⟩

theorem arith (op : ArithOp) (hl : l.HasType table s type) (hr : r.HasType table s type') :
    HasType (op.expr l r) table s .int64 where
  single := by cases op <;> rfl
  found h := by cases op <;> simp [ArithOp.expr, wellScoped, hl.found h, hr.found h]
  computed h := by cases op <;> simp [ArithOp.expr, isRefused, hl.computed h, hr.computed h]
  suits _ := by cases op <;> rfl

theorem unary (op : UnaryOp) (he : e.HasType table s type) :
    HasType (op.expr e) table s .int64 where
  single := by cases op <;> rfl
  found h := by cases op <;> exact he.found h
  computed h := by cases op <;> exact he.computed h
  suits _ := by cases op <;> rfl

end Expr.HasType

/-! ## Values -/

/-- A column has the value that the row shows. -/
theorem Expr.eval_column {table name : String} {s : Schema} {scope : Scope} {row : List Datum} {k : Nat}
    {cell : String → Scalar} {f : Field} (h : scope.Shows table s k) (hrow : RowShows row s k cell)
    (hf : s.field? name = some f) :
    (Expr.column table name).eval scope row = Datum.ofScalar (cell name) := by
  obtain ⟨j, b, hj, hindex, -, -⟩ := h.column hf
  rw [Expr.eval, hindex, Option.bind_some, hrow j f hj, Option.getD_some, Schema.field?_name hf]

/-- The expression yields a cell of a type for each row of a table that is in scope. -/
structure Expr.Means (e : Expr) (table : String) (s : Schema) (t : Table) (type : DataType)
    (value : Nat → Scalar) : Prop extends e.HasType table s type where
  admits : ∀ {i}, i < t.rowCount → type.admits (value i) = true
  eval : ∀ {scope k row i}, i < t.rowCount → scope.Shows table s k → RowShows row s k (t.cell · i) →
    e.eval scope row = Datum.ofScalar (value i)

namespace Expr.Means

variable {e l r : Expr} {table : String} {s : Schema} {t : Table} {type type' : DataType}
  {v w value : Nat → Scalar}

theorem literal {x : Scalar} (h : x.isPlain = true) :
    Means (.literal x) table s t x.dataType fun _ => x where
  toHasType := .literal x
  admits _ := by simp [DataType.admits, h]
  eval _ _ _ := ofLiteral_eq h

theorem column (table : String) (ht : t.Conforms s) {name : String} {f : Field} (hf : s.field? name = some f) :
    Means (.column table name) table s t f.type (t.cell name) where
  toHasType := .column hf
  admits {i} _ := ht.admits_cell hf i
  eval _ h hrow := Expr.eval_column h hrow hf

theorem compare {op : CompareOp} (hl : l.Means table s t type v) (hr : r.Means table s t type' w)
    (h : type.comparableWith type' = true) :
    Means (.compare op l r) table s t .boolean fun i => Elementwise.compareCells op (v i) (w i) where
  toHasType := .compare hl.toHasType hr.toHasType
  admits {i} _ := by rw [Elementwise.compareCells]; split <;> rfl
  eval hi hs hrow := by
    rw [Expr.eval, hl.eval hi hs hrow, hr.eval hi hs hrow]
    exact applyCompare_eq (hl.suits hs) (hr.suits hs) (hl.admits hi) (hr.admits hi) h

theorem isNull (he : e.Means table s t type v) :
    Means (.isNull e) table s t .boolean fun i => .bool (v i).isNull where
  toHasType := .isNull he.toHasType
  admits _ := rfl
  eval hi hs hrow := by
    rw [Expr.eval, he.eval hi hs hrow, Datum.isNull_ofScalar (DataType.isPlain_of_admits (he.admits hi))]
    rfl

theorem and (hl : l.Means table s t .boolean v) (hr : r.Means table s t .boolean w) :
    Means (.and l r) table s t .boolean fun i =>
      Scalar.ofTruth (Elementwise.conjunction (v i).truth? (w i).truth?) where
  toHasType := .and hl.toHasType hr.toHasType
  admits _ := admits_ofTruth _
  eval hi hs hrow := by
    rw [Expr.eval, hl.eval hi hs hrow, hr.eval hi hs hrow, truth?_ofScalar rfl (hl.admits hi),
      truth?_ofScalar rfl (hr.admits hi), ofScalar_ofTruth]
    rfl

theorem or (hl : l.Means table s t .boolean v) (hr : r.Means table s t .boolean w) :
    Means (.or l r) table s t .boolean fun i =>
      Scalar.ofTruth (Elementwise.disjunction (v i).truth? (w i).truth?) where
  toHasType := .or hl.toHasType hr.toHasType
  admits _ := admits_ofTruth _
  eval hi hs hrow := by
    rw [Expr.eval, hl.eval hi hs hrow, hr.eval hi hs hrow, truth?_ofScalar rfl (hl.admits hi),
      truth?_ofScalar rfl (hr.admits hi), ofScalar_ofTruth]
    rfl

theorem not (he : e.Means table s t .boolean v) :
    Means (.not e) table s t .boolean fun i => Scalar.ofTruth ((v i).truth?.map (!·)) where
  toHasType := .not he.toHasType
  admits _ := admits_ofTruth _
  eval hi hs hrow := by
    rw [Expr.eval, he.eval hi hs hrow, truth?_ofScalar rfl (he.admits hi), ofScalar_ofTruth]

theorem arith {op : ArithOp} (hl : l.Means table s t type v) (hr : r.Means table s t type' w)
    (ht : type.isIntegral = true) (ht' : type'.isIntegral = true) (hop : op ≠ .div)
    (h : ∀ {i}, i < t.rowCount → Elementwise.arithCells op (v i) (w i) = .ok (value i))
    (hp : ∀ {i}, i < t.rowCount → (value i).isPlain = true) :
    Means (op.expr l r) table s t .int64 value where
  toHasType := .arith op hl.toHasType hr.toHasType
  admits {i} hi := (eval_arith (l := .literal (v i)) (r := .literal (w i)) [] [] ht ht'
    (hl.admits hi) (hr.admits hi) (ofLiteral_eq (DataType.isPlain_of_admits (hl.admits hi)))
    (ofLiteral_eq (DataType.isPlain_of_admits (hr.admits hi))) hop (h hi) (hp hi)).2
  eval hi hs hrow := (eval_arith _ _ ht ht' (hl.admits hi) (hr.admits hi) (hl.eval hi hs hrow)
    (hr.eval hi hs hrow) hop (h hi) (hp hi)).1

theorem unary {op : UnaryOp} (he : e.Means table s t type v) (ht : type.isIntegral = true)
    (h : ∀ {i}, i < t.rowCount → Elementwise.unaryCell op (v i) = .ok (value i))
    (hp : ∀ {i}, i < t.rowCount → (value i).isPlain = true) :
    Means (op.expr e) table s t .int64 value where
  toHasType := .unary op he.toHasType
  admits {i} hi := (eval_unary (e := .literal (v i)) [] [] ht (he.admits hi)
    (ofLiteral_eq (DataType.isPlain_of_admits (he.admits hi))) (h hi) (hp hi)).2
  eval hi hs hrow := (eval_unary _ _ ht (he.admits hi) (he.eval hi hs hrow) (h hi) (hp hi)).1

end Expr.Means

/-! ## Conditions -/

/-- The conjuncts of a condition all hold if it does. -/
theorem Expr.all_conjuncts (scope : Scope) (row : List Datum) (e : Expr) :
    (e.conjuncts.all fun c => c.holds scope row) = e.holds scope row := by
  have both (a b : Option Bool) : ((Expr.conjunction a b == some true) = (a == some true && b == some true)) := by
    cases a with
    | none => cases b with
      | none => rfl
      | some b => cases b <;> rfl
    | some a => cases a <;> cases b with
      | none => rfl
      | some b => cases b <;> rfl
  induction e with
  | and l r hl hr =>
    rw [conjuncts, List.all_append, hl, hr, holds, holds, holds, Expr.eval, truth?_ofTruth, both]
  | _ => simp [conjuncts]

/-- No conjunct of a condition that can be computed is refused. -/
theorem Expr.isRefused_of_conjunct {scope : Scope} {e c : Expr} (h : e.isRefused scope = false)
    (hc : c ∈ e.conjuncts) : c.isRefused scope = false := by
  induction e with
  | and l r hl hr =>
    rw [isRefused, Bool.or_eq_false_iff] at h
    rw [conjuncts, List.mem_append] at hc
    exact hc.elim (hl h.1) (hr h.2)
  | _ => simp_all [conjuncts]

end Sql
end LazyQuery
