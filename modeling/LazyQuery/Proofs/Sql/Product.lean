import LazyQuery.Proofs.Sql.Affinity
import LazyQuery.Proofs.Sql.StoredEquality
import LazyQuery.Proofs.Summary.Totals

/-!
# Products, in memory and in queries

A query has a product of its own, which works on stored values and knows of neither truth values nor several
undefined floats. It comes to what is stored of the product in memory, but for an undefined float: the
product returns it as it is, and only the store, which takes it over, makes it null (`product_stored`).

* `Running.stored` is the running product of a query that belongs to one in memory, `step?_ofScalar` that
  both take in a value alike, and `foldlM_ofScalar` that they do so all along. The words that memory keeps of
  undefined floats make no difference, as the float of a result is the result (`Double.value_ofResult`).
-/

set_option autoImplicit false

namespace LazyQuery

/-! ## Running products -/

/-- The running product of a query where memory has a running result. -/
def Running.stored : Running → Sql.RunningProduct
  | int i => .exact i
  | float x => .inexact x.value

namespace Sql

/-- What the store takes over of a running product. -/
theorem returned_stored (r : Running) : r.stored.value.returned = Datum.ofScalar r.toScalar := by
  cases r <;> rfl

/-- A running product that is defined is returned as it is stored. -/
theorem value_stored {r : Running} (h : r.toScalar.isDefined = true) :
    r.stored.value = Datum.ofScalar r.toScalar := by
  cases r with
  | int i => rfl
  | float x => exact (ofScalar_float (Scalar.isNaN_eq_false h)).symm

/-- A running product that is undefined is returned as a float, of which null is stored. -/
theorem value_stored_undefined {r : Running} (h : r.toScalar.isDefined = false) :
    Datum.ofScalar r.toScalar = .null ∧ ∃ x : Float, r.stored.value = .real x ∧ x.isNaN = true := by
  cases r with
  | int i => cases h
  | float x =>
    have hx : x.isNaN = true := by simpa only [Running.toScalar, Scalar.isDefined, Bool.not_eq_false'] using h
    exact ⟨if_pos hx, x.value, rfl, hx⟩

/-- **A value is taken in alike**, in memory and in a query, and a text or blob is refused in both. -/
theorem step?_ofScalar (f : Fold) {v : Scalar} (hv : v.isNull = false) (hd : v.isDefined = true) :
    RunningProduct.step? f.result.stored (Datum.ofScalar v) =
      (Fold.step Word.mul? (· * ·) f v).toOption.map fun f' => f'.result.stored := by
  obtain ⟨result, overflowed, sawFloat⟩ := f
  cases hnumber : v.float? with
  | none =>
    rw [Fold.step, hnumber]
    cases v with
    | null => cases hv
    | text | blob => cases result <;> rfl
    | bool | int | float => cases hnumber
  | some x =>
    rcases number_cases (Option.isSome_iff_exists.2 ⟨x, hnumber⟩) with ⟨i, hi⟩ | ⟨y, rfl⟩
    · rw [ofScalar_int hi, Fold.step, Scalar.float?_of_int? hi, hi]
      cases result with
      | int a =>
        simp only [Running.stored, RunningProduct.step?]
        cases Word.mul? a i <;> simp [Except.toOption, pure_eq_ok]
      | float z =>
        simp [RunningProduct.step?, Running.stored, Running.toDouble, Except.toOption, pure_eq_ok]
    · -- Memory multiplies words of floats, and their floats are multiplied with them (`Double.value_mul`).
      rw [ofScalar_float (Scalar.isNaN_eq_false hd)]
      cases result <;>
        simp [Fold.step, Scalar.float?, Scalar.int?, RunningProduct.step?, Running.stored, Running.toDouble,
          Except.toOption, pure_eq_ok]

theorem foldlM_ofScalar {values : List Scalar} (hv : ∀ v ∈ values, v.isNull = false)
    (hd : ∀ v ∈ values, v.isDefined = true) (f : Fold) :
    (values.map Datum.ofScalar).foldlM RunningProduct.step? f.result.stored =
      (values.foldlM (Fold.step Word.mul? (· * ·)) f).toOption.map fun f' => f'.result.stored := by
  induction values generalizing f with
  | nil => rfl
  | cons v rest ih =>
    rw [List.forall_mem_cons] at hv hd
    rw [List.map_cons, List.foldlM_cons, List.foldlM_cons, step?_ofScalar f hv.1 hd.1]
    cases Fold.step Word.mul? (· * ·) f v with
    | ok f' => exact ih hv.2 hd.2 f'
    | error e => rfl

/-- The product of a query passes over nulls, whether they are left out before or not. -/
theorem product?_present (values : List Datum) :
    RunningProduct.product? (values.filter fun v => !v.isNull) = RunningProduct.product? values := by
  rw [RunningProduct.product?, RunningProduct.product?]
  generalize RunningProduct.exact 1 = start
  induction values generalizing start with
  | nil => rfl
  | cons v rest ih =>
    cases v with
    | null =>
      have hpassed : RunningProduct.step? start .null = some start := by cases start <;> rfl
      rw [List.filter_cons_of_neg (by decide), List.foldlM_cons, hpassed]
      exact ih start
    | _ =>
      rw [List.filter_cons_of_pos rfl, List.foldlM_cons, List.foldlM_cons]
      cases RunningProduct.step? start _ with
      | none => rfl
      | some p => exact ih p

theorem isNull_ofScalar_defined {v : Scalar} (h : v.isDefined = true) :
    (Datum.ofScalar v).isNull = v.isNull := by
  cases v with
  | float x =>
    rw [ofScalar_float (Scalar.isNaN_eq_false h)]
    rfl
  | _ => rfl

/-- The product of a query, given how the numbers in memory are multiplied. -/
theorem product?_map {values : List Scalar} (h : ∀ v ∈ values, v.isDefined = true) {f : Fold}
    (hf : (values.filter fun v => !v.isNull).foldlM (Fold.step Word.mul? (· * ·)) ⟨.int 1, false, false⟩ =
      .ok f) :
    RunningProduct.product? (values.map Datum.ofScalar) = some f.result.stored.value := by
  have hpresent : ∀ v ∈ values.filter (fun v => !v.isNull), v.isNull = false :=
    fun v hv => by simpa using (List.mem_filter.1 hv).2
  have hfold := foldlM_ofScalar hpresent (fun v hv => h v (List.mem_filter.1 hv).1) ⟨.int 1, false, false⟩
  rw [← Datum.present_ofScalar fun v hv => isNull_ofScalar_defined (h v hv), Running.stored, hf] at hfold
  rw [← product?_present, RunningProduct.product?, hfold]
  rfl

/-- **The product of a query is that of the aggregation in memory.** For nulls, truth values, integers and
defined floats there is a product in memory. The product of what is stored of them, taken in one after the
other, is what is stored of it, unless it is an undefined float: null is stored of that, and the product is
an undefined float itself. The store takes either over as what is stored of the product in memory, so that
this is what a query has for an expression that yields these values. -/
theorem product_stored (values : List Scalar)
    (h : ∀ v ∈ values, v.isNull = true ∨ v.float?.isSome = true ∧ v.isDefined = true) :
    ∃ p r, aggregate .prod values = .ok p ∧
      RunningProduct.product? (values.map Datum.ofScalar) = some r ∧
      (p.isDefined = true → r = Datum.ofScalar p) ∧
      (p.isDefined = false → Datum.ofScalar p = .null ∧ ∃ x : Float, r = .real x ∧ x.isNaN = true) ∧
      r.returned = Datum.ofScalar p ∧
      ∀ (e : Expr) (scope : Scope) (rows : List (List Datum)),
        (rows.map fun row => e.eval scope row) = values.map Datum.ofScalar →
          e.evalAggregate? scope rows .prod = some (Datum.ofScalar p) := by
  obtain ⟨f, hf⟩ := Fold.foldlM_numbers Word.mul? (· * ·)
    (forall_present fun v hv => (h v hv).imp_right And.left) ⟨.int 1, false, false⟩
  have hp : aggregate .prod values = .ok f.result.toScalar := by
    rw [aggregate, Aggregate.prod, hf, ok_bind, pure_eq_ok]
  have hdefined : ∀ v ∈ values, v.isDefined = true := fun v hv => by
    rcases h v hv with hnull | ⟨-, hd⟩
    · cases v <;> first | rfl | cases hnull
    · exact hd
  have hproduct := product?_map hdefined hf
  refine ⟨_, _, hp, hproduct, value_stored, value_stored_undefined, returned_stored _,
    fun e scope rows hrows => ?_⟩
  simp only [Expr.evalAggregate?, hrows, product?_present, hproduct, Option.map_some, returned_stored]

/-- The product is a float from its overflow on, and infinite by its last factor. -/
theorem product_stored_infinite :
    ∃ p r, aggregate .prod [.int Int64.maxValue, .null, .int 2, .bool true, .float (.ofFloat Binary.infinity)] =
        .ok p ∧
      RunningProduct.product? [.integer Int64.maxValue, .null, .integer 2, .integer 1, .real Binary.infinity] =
        some r ∧ r = Datum.ofScalar p ∧ r = .real Binary.infinity := by
  obtain ⟨p, r, hp, hproduct, hdefined, -⟩ := product_stored
    [.int Int64.maxValue, .null, .int 2, .bool true, .float (.ofFloat Binary.infinity)] (by decide)
  have hr := Option.some.inj (hproduct.symm.trans
    (by decide +kernel : _ = some (.real Binary.infinity)))
  have hd : (aggregate .prod [.int Int64.maxValue, .null, .int 2, .bool true,
      .float (.ofFloat Binary.infinity)]).toOption.all Scalar.isDefined = true := by decide +kernel
  rw [hp] at hd
  exact ⟨p, r, hp, hproduct, hdefined hd, hr⟩

/-- The product of an infinity and zero is an undefined float, of which null is stored. -/
theorem product_returns_undefined :
    let values : List Scalar := [.float (.ofFloat Binary.infinity), .float (.ofFloat 0.0)]
    (∀ v ∈ values, v.float?.isSome = true ∧ v.isDefined = true) ∧
      (aggregate .prod values).map Datum.ofScalar = .ok .null ∧
      ∃ x : Float, RunningProduct.product? (values.map Datum.ofScalar) = some (.real x) ∧
        x.isNaN = true :=
  ⟨by decide, by decide +kernel, _, rfl, by decide +kernel⟩

end Sql
end LazyQuery
