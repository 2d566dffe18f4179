import LazyQuery.Proofs.Outcome
import LazyQuery.Proofs.Scalar.Word
import LazyQuery.Summary.Aggregate
import Mathlib.Data.List.Infix

/-!
# Sums and products

A sum or a product of integers is the exact one as long as all results on the way fit in a word. Where one
does not, the sum is refused and the product is a float. With a float among the values there is no refusal,
and the sum is a float (`aggregate_totals`).

* `Word.foldlM_exact` is about words alone: an arithmetic that notices when it leaves the range goes on to the
  end just if no result on the way does, and the end is then the exact one.
* `Fold.foldlM_integers` says that the running result of integers is that of this arithmetic, and a float
  from the first result on that does not fit.
* `Fold.Follows` says what becomes of the marks and the result for numbers of any kind.
-/

set_option autoImplicit false

namespace LazyQuery

open scoped Numbers

/-! ## Words -/

namespace Word

variable {exact : Int64 → Int64 → Option Int64} {op : Int → Int → Int}

/-- **Checked arithmetic gets to the end if all results on the way fit**, and the end is then the exact
one. The results on the way are those of the fronts of the list. -/
theorem foldlM_exact (h : ∀ a b : Int64, exact a b = fit? (op a.toInt b.toInt)) (xs : List Int64)
    (start : Int64) :
    (∃ total, xs.foldlM exact start = some total ∧
        total.toInt = (xs.map Int64.toInt).foldl op start.toInt ∧
        ∀ front, front <+: xs.map Int64.toInt → Fits (front.foldl op start.toInt)) ∨
      xs.foldlM exact start = none ∧
        ∃ front, front <+: xs.map Int64.toInt ∧ ¬ Fits (front.foldl op start.toInt) := by
  induction xs generalizing start with
  | nil =>
    refine .inl ⟨start, rfl, rfl, fun front hfront => ?_⟩
    rw [List.prefix_nil.1 hfront]
    exact fits_toInt start
  | cons x xs ih =>
    rw [List.foldlM_cons, List.map_cons, h]
    by_cases hfits : Fits (op start.toInt x.toInt)
    · obtain ⟨next, hnext, hvalue⟩ := exists_fit? hfits
      rw [hnext, Option.bind_eq_bind, Option.bind_some, List.foldl_cons, ← hvalue]
      refine (ih next).imp ?_ ?_
      · rintro ⟨total, htotal, hexact, hall⟩
        refine ⟨total, htotal, hexact, fun front hfront => ?_⟩
        obtain rfl | ⟨rest, rfl, hrest⟩ := List.prefix_cons_iff.1 hfront
        · exact fits_toInt start
        · rw [List.foldl_cons, ← hvalue]
          exact hall rest hrest
      · rintro ⟨hnone, front, hfront, hout⟩
        refine ⟨hnone, x.toInt :: front, List.prefix_cons_iff.2 (.inr ⟨front, rfl, hfront⟩), ?_⟩
        rwa [List.foldl_cons, ← hvalue]
    · rw [fit?_eq_none hfits]
      exact .inr ⟨rfl, [x.toInt], by simp, hfits⟩

end Word

/-! ## Running results -/

theorem Scalar.float?_of_int? {v : Scalar} {i : Int64} (h : v.int? = some i) :
    v.float? = some (doubleOfInt i) := by
  cases v <;> cases h <;> rfl

theorem Scalar.float?_isSome {v : Scalar} (h : v.int?.isSome = true) : v.float?.isSome = true := by
  obtain ⟨i, hi⟩ := Option.isSome_iff_exists.1 h
  rw [float?_of_int? hi]
  rfl

namespace Fold

/-- What becomes of a running result when values are taken in. A value that is no integer leaves a mark, an
overflow stays marked, and the result is a float if it was one or such a value was met. -/
structure Follows (f : Fold) (values : List Scalar) (f' : Fold) : Prop where
  sawFloat : f'.sawFloat = (f.sawFloat || values.any fun v => v.int?.isNone)
  overflowed : f.overflowed = true → f'.overflowed = true
  float : ((∃ x, f.result = .float x) ∨ ∃ v ∈ values, v.int? = none) → ∃ x, f'.result = .float x

variable {exact : Int64 → Int64 → Option Int64} {inexact : Double → Double → Double} {f f' f'' : Fold}
  {v : Scalar} {values values' : List Scalar}

theorem follows_refl (f : Fold) : f.Follows [] f :=
  ⟨(Bool.or_false _).symm, id, fun h => h.resolve_right (by simp)⟩

theorem Follows.trans (h : f.Follows values f') (h' : f'.Follows values' f'') :
    f.Follows (values ++ values') f'' where
  sawFloat := by rw [h'.sawFloat, h.sawFloat, List.any_append, Bool.or_assoc]
  overflowed := h'.overflowed ∘ h.overflowed
  float hex := by
    simp only [List.mem_append, or_and_right, exists_or] at hex
    rcases hex with hex | hex | hex
    · exact h'.float (.inl (h.float (.inl hex)))
    · exact h'.float (.inl (h.float (.inr hex)))
    · exact h'.float (.inr hex)

theorem step_follows (h : step exact inexact f v = .ok f') : f.Follows [v] f' := by
  obtain ⟨result, overflowed, sawFloat⟩ := f
  rw [step] at h
  cases hx : v.float? with
  | none =>
    rw [hx] at h
    cases h
  | some x =>
    rw [hx] at h
    obtain rfl := Except.ok.inj h
    cases hi : v.int? with
    | none => cases result <;> exact ⟨by simp [hi], id, fun _ => ⟨_, rfl⟩⟩
    | some i =>
      cases result with
      | float y => exact ⟨by simp [hi], id, fun _ => ⟨_, rfl⟩⟩
      | int a =>
        dsimp only
        cases exact a i with
        | some r => exact ⟨by simp [hi], id, by simp [hi]⟩
        | none => exact ⟨by simp [hi], fun _ => rfl, fun _ => ⟨_, rfl⟩⟩

theorem foldlM_follows (h : values.foldlM (step exact inexact) f = .ok f') : f.Follows values f' := by
  induction values generalizing f with
  | nil =>
    obtain rfl := Except.ok.inj h
    exact follows_refl f
  | cons v rest ih =>
    rw [List.foldlM_cons] at h
    obtain ⟨g, hg, h⟩ := bind_eq_ok.1 h
    exact (step_follows hg).trans (ih h)

variable (exact inexact)

/-- Numbers can be taken in, whatever came before. -/
theorem foldlM_numbers (h : ∀ v ∈ values, v.float?.isSome = true) (f : Fold) :
    ∃ f', values.foldlM (step exact inexact) f = .ok f' := by
  induction values generalizing f with
  | nil => exact ⟨f, rfl⟩
  | cons v rest ih =>
    rw [List.forall_mem_cons] at h
    obtain ⟨x, hx⟩ := Option.isSome_iff_exists.1 h.1
    rw [List.foldlM_cons, step, hx]
    exact ih h.2 _

/-- **The running result of integers is the exact one until it does not fit**, and a float from then on. -/
theorem foldlM_integers (h : ∀ v ∈ values, v.int?.isSome = true) (start : Int64) :
    ∃ f, values.foldlM (step exact inexact) ⟨.int start, false, false⟩ = .ok f ∧
      match (values.filterMap Scalar.int?).foldlM exact start with
      | some total => f = ⟨.int total, false, false⟩
      | none => f.overflowed = true ∧ f.sawFloat = false ∧ ∃ x, f.result = .float x := by
  induction values generalizing start with
  | nil => exact ⟨_, rfl, rfl⟩
  | cons v rest ih =>
    rw [List.forall_mem_cons] at h
    obtain ⟨i, hi⟩ := Option.isSome_iff_exists.1 h.1
    rw [List.foldlM_cons, step, Scalar.float?_of_int? hi]
    simp only [hi, List.filterMap_cons_some hi, List.foldlM_cons]
    cases exact start i with
    | some next => exact ih h.2 next
    | none =>
      -- What follows the overflow are integers still, so that no float is marked.
      obtain ⟨f, hf⟩ := foldlM_numbers exact inexact (fun v hv => Scalar.float?_isSome (h.2 v hv))
        ⟨.float (inexact (doubleOfInt start) (doubleOfInt i)), true, false⟩
      have hfollows := foldlM_follows hf
      refine ⟨f, hf, hfollows.overflowed rfl, ?_, hfollows.float (.inl ⟨_, rfl⟩)⟩
      rw [hfollows.sawFloat, Bool.false_or, List.any_eq_false]
      exact fun v hv => by simp [Option.isSome_iff_ne_none.1 (h.2 v hv)]

end Fold

/-! ## Totals -/

variable {values : List Scalar}

/-- The integers among some values, truth values counting as 0 and 1. -/
def integers (values : List Scalar) : List Int := (values.filterMap Scalar.int?).map Int64.toInt

/-- What holds of all values but nulls holds of all that are aggregated. -/
theorem forall_present {p : Scalar → Prop} (h : ∀ v ∈ values, v.isNull = true ∨ p v) :
    ∀ v ∈ values.filter (fun v => !v.isNull), p v := fun v hv => by
  obtain ⟨hmem, hnull⟩ := List.mem_filter.1 hv
  exact (h v hmem).resolve_left (by simpa using hnull)

/-- Leaving out nulls leaves out no integer. -/
theorem filterMap_int?_present (values : List Scalar) :
    (values.filter fun v => !v.isNull).filterMap Scalar.int? = values.filterMap Scalar.int? := by
  rw [List.filterMap_filter]
  refine List.filterMap_congr fun v _ => ?_
  cases v <;> rfl

/-- What taking in integers and nulls comes to: the exact total, or an overflow into floats. -/
theorem total_cases (exact : Int64 → Int64 → Option Int64) (op : Int → Int → Int)
    (hop : ∀ a b : Int64, exact a b = Word.fit? (op a.toInt b.toInt))
    (inexact : Double → Double → Double) (h : ∀ v ∈ values, v.isNull = true ∨ v.int?.isSome = true)
    (start : Int64) :
    ∃ f, (values.filter fun v => !v.isNull).foldlM (Fold.step exact inexact) ⟨.int start, false, false⟩ =
        .ok f ∧
      ((∃ total, f = ⟨.int total, false, false⟩ ∧
          total.toInt = (integers values).foldl op start.toInt ∧
          ∀ front, front <+: integers values → Word.Fits (front.foldl op start.toInt)) ∨
        (f.overflowed = true ∧ f.sawFloat = false ∧ ∃ x, f.result = .float x) ∧
          ∃ front, front <+: integers values ∧ ¬ Word.Fits (front.foldl op start.toInt)) := by
  obtain ⟨f, hf, hspec⟩ := Fold.foldlM_integers exact inexact (forall_present h) start
  rw [filterMap_int?_present] at hspec
  refine ⟨f, hf, ?_⟩
  rcases Word.foldlM_exact hop (values.filterMap Scalar.int?) start with
    ⟨total, htotal, hexact, hall⟩ | ⟨hnone, hout⟩
  · rw [htotal] at hspec
    exact .inl ⟨total, hspec, hexact, hall⟩
  · rw [hnone] at hspec
    exact .inr ⟨hspec, hout⟩

/-- A sum of integers and nulls is the exact one, or it is refused. -/
theorem sum_cases (h : ∀ v ∈ values, v.isNull = true ∨ v.int?.isSome = true) :
    (∃ s : Int64, s.toInt = (integers values).sum ∧ aggregate .sum values = .ok (.int s) ∧
        ∀ front, front <+: integers values → Word.Fits front.sum) ∨
      aggregate .sum values = .error (.overflow "sum") ∧
        ∃ front, front <+: integers values ∧ ¬ Word.Fits front.sum := by
  obtain ⟨f, hf, hsum⟩ := total_cases Word.add? (· + ·) (fun _ _ => rfl) (· + ·) h 0
  simp only [Int64.toInt_zero, ← List.sum_eq_foldl] at hsum
  rw [aggregate, Aggregate.sum, hf, ok_bind]
  refine hsum.imp ?_ ?_
  · rintro ⟨total, rfl, hexact, hall⟩
    exact ⟨total, hexact, rfl, hall⟩
  · rintro ⟨⟨hover, hsaw, -⟩, hout⟩
    rw [hover, hsaw]
    exact ⟨rfl, hout⟩

/-- A product of integers and nulls is the exact one, or it is a float. -/
theorem prod_cases (h : ∀ v ∈ values, v.isNull = true ∨ v.int?.isSome = true) :
    (∃ p : Int64, p.toInt = (integers values).prod ∧ aggregate .prod values = .ok (.int p) ∧
        ∀ front, front <+: integers values → Word.Fits front.prod) ∨
      (∃ x, aggregate .prod values = .ok (.float x)) ∧
        ∃ front, front <+: integers values ∧ ¬ Word.Fits front.prod := by
  obtain ⟨f, hf, hprod⟩ := total_cases Word.mul? (· * ·) (fun _ _ => rfl) (· * ·) h 1
  simp only [Int64.toInt_one, ← List.prod_eq_foldl] at hprod
  rw [aggregate, Aggregate.prod, hf, ok_bind]
  refine hprod.imp ?_ ?_
  · rintro ⟨total, rfl, hexact, hall⟩
    exact ⟨total, hexact, rfl, hall⟩
  · rintro ⟨⟨-, -, x, hx⟩, hout⟩
    exact ⟨⟨x, by rw [hx]; rfl⟩, hout⟩

/-- A sum of numbers and nulls with a float among them is a float. -/
theorem sum_float (h : ∀ v ∈ values, v.isNull = true ∨ v.float?.isSome = true) {x : Double}
    (hx : .float x ∈ values) : ∃ y, aggregate .sum values = .ok (.float y) := by
  have hmem : Scalar.float x ∈ values.filter fun v => !v.isNull := List.mem_filter.2 ⟨hx, rfl⟩
  obtain ⟨f, hf⟩ := Fold.foldlM_numbers Word.add? (· + ·) (forall_present h) ⟨.int 0, false, false⟩
  have hfollows := Fold.foldlM_follows hf
  obtain ⟨y, hy⟩ := hfollows.float (.inr ⟨_, hmem, rfl⟩)
  have hsaw : f.sawFloat = true := by
    rw [hfollows.sawFloat, Bool.false_or]
    exact List.any_eq_true.2 ⟨_, hmem, rfl⟩
  refine ⟨y, ?_⟩
  rw [aggregate, Aggregate.sum, hf, ok_bind, hsaw, hy, Bool.not_true, Bool.and_false]
  rfl

/-- **Sums and products are exact, or they say that they are not.** The sum of integers and nulls is the
integer that it is in mathematics if the sums of all fronts of the list fit in a word, and is refused
otherwise. The product is the exact integer if the products of all fronts fit, and a float otherwise. With a
float among the values, and no text or blob, the sum is a float and never refused. -/
theorem aggregate_totals (values : List Scalar) :
    ((∀ v ∈ values, v.isNull = true ∨ v.int?.isSome = true) →
      ((∀ front, front <+: integers values → Word.Fits front.sum) →
        ∃ s : Int64, s.toInt = (integers values).sum ∧ aggregate .sum values = .ok (.int s)) ∧
      ((∃ front, front <+: integers values ∧ ¬ Word.Fits front.sum) →
        aggregate .sum values = .error (.overflow "sum")) ∧
      ((∀ front, front <+: integers values → Word.Fits front.prod) →
        ∃ p : Int64, p.toInt = (integers values).prod ∧ aggregate .prod values = .ok (.int p)) ∧
      ((∃ front, front <+: integers values ∧ ¬ Word.Fits front.prod) →
        ∃ x, aggregate .prod values = .ok (.float x))) ∧
    ((∀ v ∈ values, v.isNull = true ∨ v.float?.isSome = true) → (∃ x, .float x ∈ values) →
      ∃ x, aggregate .sum values = .ok (.float x)) := by
  refine ⟨fun h => ⟨fun hfits => ?_, ?_, fun hfits => ?_, ?_⟩, fun h ⟨x, hx⟩ => sum_float h hx⟩
  · rcases sum_cases h with ⟨s, hexact, hs, -⟩ | ⟨-, front, hfront, hout⟩
    · exact ⟨s, hexact, hs⟩
    · exact absurd (hfits front hfront) hout
  · rintro ⟨front, hfront, hout⟩
    rcases sum_cases h with ⟨-, -, -, hfits⟩ | ⟨hrefused, -⟩
    · exact absurd (hfits front hfront) hout
    · exact hrefused
  · rcases prod_cases h with ⟨p, hexact, hp, -⟩ | ⟨-, front, hfront, hout⟩
    · exact ⟨p, hexact, hp⟩
    · exact absurd (hfits front hfront) hout
  · rintro ⟨front, hfront, hout⟩
    rcases prod_cases h with ⟨-, -, -, hfits⟩ | ⟨hfloat, -⟩
    · exact absurd (hfits front hfront) hout
    · exact hfloat

/-- The greatest integer and a truth value have a product, but no sum. With a float they have one. Twice the
greatest integer is a float. -/
theorem aggregate_totals_greatest :
    aggregate .sum [.int Int64.maxValue, .null, .bool true] = .error (.overflow "sum") ∧
      (∃ p : Int64, p.toInt = 2 ^ 63 - 1 ∧
        aggregate .prod [.int Int64.maxValue, .null, .bool true] = .ok (.int p)) ∧
      (∃ x, aggregate .sum [.int Int64.maxValue, .null, .bool true, .float (.ofNat 2)] = .ok (.float x)) ∧
      ∃ x, aggregate .prod [.int Int64.maxValue, .null, .int 2] = .ok (.float x) := by
  have hfits : ∀ front, front <+: integers [.int Int64.maxValue, .null, .bool true] →
      Word.Fits front.prod := by
    have hall : ∀ front ∈ (integers [.int Int64.maxValue, .null, .bool true]).inits,
        -2 ^ 63 ≤ front.prod ∧ front.prod < 2 ^ 63 := by decide
    exact fun front hfront => hall front ((List.mem_inits _ _).2 hfront)
  obtain ⟨hints, -⟩ := aggregate_totals [.int Int64.maxValue, .null, .bool true]
  obtain ⟨-, hsum, hprod, -⟩ := hints (by decide)
  obtain ⟨-, -, -, htwice⟩ := (aggregate_totals [.int Int64.maxValue, .null, .int 2]).1 (by decide)
  refine ⟨hsum ⟨_, List.prefix_rfl, ?_⟩, hprod hfits,
    (aggregate_totals _).2 (by decide) ⟨.ofNat 2, by simp⟩, htwice ⟨_, List.prefix_rfl, ?_⟩⟩
  · unfold Word.Fits
    decide
  · unfold Word.Fits
    decide

end LazyQuery
