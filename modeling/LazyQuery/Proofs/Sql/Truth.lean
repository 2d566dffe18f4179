import LazyQuery.Proofs.Sql.StoredEquality
import LazyQuery.Proofs.Table.Cells

/-!
# Truth, in memory and in queries

A table in memory has one notion of truth: numbers other than zero, texts and blobs that are not empty. A
query has two. A condition reads a text or a blob as a number and asks whether it is zero, while `any` and
`all` compare it with zero as it is. For numbers the three agree.

* `isTrue_eq_truth?_iff` says that a condition holds of a cell that is true, unless the cell is misread
  (`Scalar.IsMisread`).
* `Scalar.isTrue_eq_isNonzero_iff` says that a cell is true if it differs from zero, but for three cells
  (`Scalar.IsContested`).
* `aggregate_truth` goes from cells to columns. A contested cell need not be noticed there, as `any` and
  `all` come to the same if another cell decides (`AggFunc.Disputes`).
-/

set_option autoImplicit false

namespace LazyQuery

open Sql
open scoped Numbers

variable {type : DataType} {nullable : Bool} {v w : Scalar} {values : List Scalar}

/-! ## Cells -/

/-- Cells of the type of their column and missing ones, and no undefined float among them. -/
def CellLaw.defined : CellLaw := fun type _ v => v.isNull = true ∨ v.dataType = type ∧ v.isDefined = true

namespace Scalar

/-- Is the cell true in memory? -/
def isTrue (v : Scalar) : Bool := v.truth? == some true

/-- Is the cell different from zero in a query? A text is compared with the digit as a text, and a blob is
no number at all. -/
def isNonzero : Scalar → Bool
  | text s => s != "0"
  | blob _ => true
  | v => v.isTrue

/-- A text or blob that is not empty and has no number at its front, or zero. -/
def IsMisread : Scalar → Prop
  | text s => s ≠ "" ∧ (Datum.text s).truth? ≠ some true
  | blob bytes => bytes ≠ [] ∧ (Datum.blob bytes).truth? ≠ some true
  | _ => False

/-- The texts that are empty or the digit zero, and the empty blob. -/
def IsContested (v : Scalar) : Prop := v = text "" ∨ v = text "0" ∨ v = blob []

theorem truth?_isSome (h : v.isNull = false) : ∃ b, v.truth? = some b := by
  cases v with
  | null => cases h
  | _ => exact ⟨_, rfl⟩

@[simp] theorem isTrue_text (s : String) : (text s).isTrue = (s != "") := by
  rw [Bool.eq_iff_iff]
  simp [isTrue, truth?]

@[simp] theorem isTrue_blob (bytes : List UInt8) : (blob bytes).isTrue = (bytes != []) := by
  rw [Bool.eq_iff_iff]
  simp [isTrue, truth?]

@[simp] theorem isNonzero_text (s : String) : (text s).isNonzero = (s != "0") := rfl

@[simp] theorem isNonzero_blob (bytes : List UInt8) : (blob bytes).isNonzero = true := rfl

theorem isNonzero_number (hv : v.float?.isSome = true) : v.isNonzero = v.isTrue := by
  cases v <;> first | rfl | cases hv

/-- **Truth in memory is a difference from zero in a query, but for contested cells.** -/
theorem isTrue_eq_isNonzero_iff : v.isTrue = v.isNonzero ↔ ¬v.IsContested := by
  cases v with
  | text s =>
    rw [Bool.eq_iff_iff, isTrue_text, isNonzero_text, bne_iff_ne, bne_iff_ne]
    by_cases hempty : s = ""
    · simp [IsContested, hempty]
    · simp [IsContested, hempty]
  | blob bytes => simp [IsContested]
  | null | bool | int | float => exact iff_of_true rfl (by simp [IsContested])

end Scalar

namespace Sql

/-! ## Cells of a condition -/

/-- What is kept of a number is as true as the number. -/
theorem truth?_kept_number (hv : v.float?.isSome = true) (hd : v.isDefined = true) :
    (kept v.dataType v).truth? = v.truth? := by
  cases v with
  | bool b => cases b <;> rfl
  | int i => rfl
  | float x =>
    obtain ⟨y, hy, hsame⟩ := kept_float (Scalar.isNaN_eq_false hd)
    have htruth : (y != 0.0) = (x.value != 0.0) := by
      obtain rfl | ⟨hx, hy⟩ := hsame
      · rfl
      · rw [Bool.eq_iff_iff, Binary.bne_zero_iff, Binary.bne_zero_iff]
        exact iff_of_false (not_not.2 hy) (not_not.2 hx)
    rw [Scalar.dataType, hy]
    exact congrArg some htruth
  | null | text | blob => cases hv

/-- **A condition holds of what is kept of a cell if the cell is true**, unless it is misread. -/
theorem isTrue_eq_truth?_iff (h : CellLaw.defined type nullable v) :
    (v.isTrue = ((kept type v).truth? == some true)) ↔ ¬v.IsMisread := by
  -- What is empty is nothing but zero to a query, so that only what is not empty can be misread.
  have partly {p q : Prop} (hqp : q → p) : (p ↔ q) ↔ ¬(p ∧ ¬q) := by tauto
  obtain hnull | ⟨rfl, hd⟩ := h
  · cases v with
    | null => exact iff_of_true (by cases type <;> rfl) not_false
    | _ => cases hnull
  · cases v with
    | null => exact iff_of_true rfl not_false
    | bool | int | float =>
      rw [truth?_kept_number rfl hd]
      exact iff_of_true rfl not_false
    | text s =>
      have hempty : (Datum.text "").truth? = some false := by decide +kernel
      have hkept : kept (Scalar.text s).dataType (.text s) = .text s := rfl
      rw [Bool.eq_iff_iff, Scalar.isTrue_text, hkept, bne_iff_ne, beq_iff_eq]
      refine partly fun htrue hs => ?_
      rw [hs, hempty] at htrue
      cases htrue
    | blob bytes =>
      have hempty : (Datum.blob []).truth? = some false := by decide +kernel
      have hkept : kept (Scalar.blob bytes).dataType (.blob bytes) = .blob bytes := rfl
      rw [Bool.eq_iff_iff, Scalar.isTrue_blob, hkept, bne_iff_ne, beq_iff_eq]
      refine partly fun htrue hs => ?_
      rw [hs, hempty] at htrue
      cases htrue

/-! ## Comparisons with zero -/

theorem compare_zero_number (hv : v.float?.isSome = true) (hd : v.isDefined = true) :
    (Datum.ofScalar v).compare (.integer 0) = .eq ↔ v.isTrue = false := by
  cases v with
  | bool b => cases b <;> decide
  | int i =>
    have hzero : (Datum.integer i).compare (.integer 0) = .eq ↔ i = 0 := by
      rw [Datum.compare, Int.compare_eq_eq, Int64.toInt_inj]
    rw [Datum.ofScalar, hzero]
    simp [Scalar.isTrue, Scalar.truth?]
  | float x =>
    rw [ofScalar_float (Scalar.isNaN_eq_false hd), Datum.compare_comm]
    change Binary.compareInt 0 x.value = .eq ↔ _
    rw [Binary.compareInt_zero, ← not_iff_not, ← Binary.bne_zero_iff]
    simp [Scalar.isTrue, Scalar.truth?]
  | null | text | blob => cases hv

theorem applyCompare_ne {a b : Affinity} {c d c' d' : Datum} (hc : c.isNull = false)
    (hd : d.isNull = false) (h : comparable a c b d = (c', d')) :
    Expr.applyCompare .ne a c b d = Datum.ofBool (c'.compare d' != .eq) := by
  rw [Expr.applyCompare, hc, hd, h]
  cases hcompare : c'.compare d' <;> simp [CompareOp.holds, hcompare]

/-- **What is kept of a cell is compared with zero.** -/
theorem applyCompare_zero (h : CellLaw.defined type nullable v) :
    Expr.applyCompare .ne (declaredAffinity type) (kept type v) .none (.integer 0) =
      if v.isNull then .null else Datum.ofBool v.isNonzero := by
  obtain hnull | ⟨rfl, hd⟩ := h
  · cases v with
    | null => cases type <;> rfl
    | _ => cases hnull
  have number (hv : v.float?.isSome = true) : Expr.applyCompare .ne (declaredAffinity v.dataType)
      (kept v.dataType v) .none (.integer 0) = Datum.ofBool v.isNonzero := by
    obtain ⟨ha, hnull, hkeep, hcompare⟩ := kept_number hv hd
    have hpair : comparable (declaredAffinity v.dataType) (kept v.dataType v) .none (.integer 0) =
        (Affinity.numeric (kept v.dataType v), .integer 0) := by
      generalize declaredAffinity v.dataType = a at ha
      cases a <;> first | rfl | cases ha
    rw [applyCompare_ne hnull rfl hpair, hkeep, Scalar.isNonzero_number hv]
    refine congrArg Datum.ofBool ?_
    rw [Bool.eq_iff_iff, bne_iff_ne, Ne, hcompare, compare_zero_number hv hd, Bool.not_eq_false]
  cases v with
  | null | blob => rfl
  | bool | int | float => exact number rfl
  | text s =>
    have hpair : comparable .text (.text s) .none (.integer 0) = (.text s, .text "0") := rfl
    refine (applyCompare_ne rfl rfl hpair).trans (congrArg Datum.ofBool ?_)
    rw [Bool.eq_iff_iff, bne_iff_ne, Datum.compare, Ne, Scalar.compareChars_eq_iff, String.toList_inj,
      Scalar.isNonzero_text, bne_iff_ne]

/-! ## Aggregates -/

/-- Truth values that are stored are folded as such. -/
theorem foldl_ofBool {worse : Ordering} (op : Bool → Bool → Bool) (h : ∀ b c, Datum.ofBool (op b c) =
      if (Datum.ofBool b).compare (Datum.ofBool c) == worse then Datum.ofBool c else Datum.ofBool b)
    (bs : List Bool) (b : Bool) : (bs.map Datum.ofBool).foldl
      (fun m v => if m.compare v == worse then v else m) (Datum.ofBool b) =
        Datum.ofBool (bs.foldl op b) := by
  induction bs generalizing b with
  | nil => rfl
  | cons c rest ih => rw [List.map_cons, List.foldl_cons, List.foldl_cons, ← h, ih]

/-- The greatest of some truth values, or false. -/
theorem coalesce_greatest (bs : List Bool) :
    Expr.coalesce (Expr.extreme .lt (bs.map Datum.ofBool)) (.integer 0) = Datum.ofBool (bs.any id) := by
  have hfold (b : Bool) : bs.foldl (· || ·) b = (b || bs.any id) := by
    induction bs generalizing b with
    | nil => simp
    | cons c rest ih => simp [ih, Bool.or_assoc]
  cases bs with
  | nil => rfl
  | cons b rest =>
    rw [List.map_cons, Expr.extreme, foldl_ofBool (· || ·) (by decide)]
    exact congrArg Datum.ofBool (hfold false)

/-- The least of some truth values, or true. -/
theorem coalesce_least (bs : List Bool) :
    Expr.coalesce (Expr.extreme .gt (bs.map Datum.ofBool)) (.integer 1) = Datum.ofBool (bs.all id) := by
  have hfold (b : Bool) : bs.foldl (· && ·) b = (b && bs.all id) := by
    induction bs generalizing b with
    | nil => simp
    | cons c rest ih => simp [ih, Bool.and_assoc]
  cases bs with
  | nil => rfl
  | cons b rest =>
    rw [List.map_cons, Expr.extreme, foldl_ofBool (· && ·) (by decide)]
    exact congrArg Datum.ofBool (hfold true)

/-- The values of a column that is compared with zero, without nulls. -/
theorem nonzero_values {e : Expr} {scope : Scope} {rows : List (List Datum)}
    (ha : e.affinity scope = declaredAffinity type)
    (he : (rows.map fun row => e.eval scope row) = values.map (kept type))
    (hv : ∀ v ∈ values, CellLaw.defined type nullable v) :
    ((rows.map fun row => (Expr.compare .ne e (.literal (.int 0))).eval scope row).filter
      fun v => !v.isNull) =
        ((values.filter fun v => !v.isNull).map Scalar.isNonzero).map Datum.ofBool := by
  have hcompared : (rows.map fun row => (Expr.compare .ne e (.literal (.int 0))).eval scope row) =
      values.map fun v => if v.isNull then .null else Datum.ofBool v.isNonzero := by
    have hrows := congrArg (List.map fun d =>
      Expr.applyCompare .ne (declaredAffinity type) d .none (.integer 0)) he
    rw [List.map_map, List.map_map] at hrows
    rw [← hrows.trans (List.map_congr_left fun v hmem => applyCompare_zero (hv v hmem))]
    exact List.map_congr_left fun row _ => by rw [Expr.eval, ha]; rfl
  rw [hcompared, List.filter_map, List.map_map]
  have hpresent : values.filter ((fun d => !d.isNull) ∘
      fun v => if v.isNull then .null else Datum.ofBool v.isNonzero) = values.filter fun v => !v.isNull :=
    List.filter_congr fun v _ => by cases hnull : v.isNull <;> simp [hnull] <;> rfl
  rw [hpresent]
  refine List.map_congr_left fun v hmem => ?_
  simp [Bool.not_eq_true' .. ▸ (List.mem_filter.1 hmem).2]

end Sql

/-! ## Columns -/

/-- The columns whose cells are in dispute: `any` where one contested cell is all there is but nulls, and
`all` where there is a contested cell, but not an empty text together with the digit zero. -/
def AggFunc.Disputes : AggFunc → List Scalar → Prop
  | any, values => ∃ v ∈ values, v.IsContested ∧ ∀ w ∈ values, w.isNull = true ∨ w = v
  | all, values => (∃ v ∈ values, v.IsContested) ∧ ¬(.text "" ∈ values ∧ .text "0" ∈ values)
  | _, _ => False

/-- One of two tests finds something where the other one finds nothing. -/
theorem any_ne_any {α : Type} {xs : List α} {p q : α → Bool} (h : xs.any p ≠ xs.any q) :
    (∃ x ∈ xs, p x = true ∧ ∀ y ∈ xs, q y = false) ∨
      ∃ x ∈ xs, q x = true ∧ ∀ y ∈ xs, p y = false := by
  cases hp : xs.any p with
  | true =>
    have hq : xs.any q = false := by simpa [hp] using h
    obtain ⟨x, hx, htrue⟩ := List.any_eq_true.1 hp
    exact .inl ⟨x, hx, htrue, by simpa using hq⟩
  | false =>
    have hq : xs.any q = true := by simpa [hp] using h
    obtain ⟨x, hx, htrue⟩ := List.any_eq_true.1 hq
    exact .inr ⟨x, hx, htrue, by simpa using hp⟩

namespace Scalar

theorem isContested_iff : v.IsContested ↔ v.isTrue ≠ v.isNonzero :=
  (not_iff_comm.1 isTrue_eq_isNonzero_iff.symm).symm

theorem IsContested.isNull (hv : v.IsContested) : v.isNull = false := by
  obtain rfl | rfl | rfl := hv <;> rfl

/-- A contested cell is the only one of its type that is false, or that is zero, if it is so itself. -/
theorem IsContested.unique (hv : v.IsContested) (htype : w.dataType = v.dataType)
    (h : v.isTrue = false ∧ w.isTrue = false ∨ v.isNonzero = false ∧ w.isNonzero = false) : w = v := by
  obtain rfl | rfl | rfl := hv
  all_goals
    cases w <;> cases htype
    simp_all

/-- Of two cells of a type one is false and the other one zero only if they are the contested texts. -/
theorem IsContested.partner (hv : v.IsContested) (htype : w.dataType = v.dataType)
    (h : v.isTrue = false ∧ w.isNonzero = false ∨ v.isNonzero = false ∧ w.isTrue = false) :
    v = text "" ∧ w = text "0" ∨ v = text "0" ∧ w = text "" := by
  obtain rfl | rfl | rfl := hv
  all_goals
    cases w <;> cases htype
    simp_all

end Scalar

theorem mem_present : v ∈ values.filter (fun v => !v.isNull) ↔ v ∈ values ∧ v.isNull = false := by
  rw [List.mem_filter, Bool.not_eq_true']

section

variable (h : ∀ v ∈ values, CellLaw.defined type nullable v)

include h

/-- Cells that are there are of one type. -/
theorem same_type (hv : v ∈ values) (hw : w ∈ values) (hvnull : v.isNull = false)
    (hwnull : w.isNull = false) : w.dataType = v.dataType := by
  rw [((h w hw).resolve_left (Bool.eq_false_iff.1 hwnull)).1,
    ((h v hv).resolve_left (Bool.eq_false_iff.1 hvnull)).1]

/-- **Something is true if something is different from zero**, unless there is nothing but one contested cell
over and over. -/
theorem any_isTrue_iff : ((values.filter fun v => !v.isNull).any Scalar.isTrue =
    (values.filter fun v => !v.isNull).any Scalar.isNonzero) ↔ ¬AggFunc.any.Disputes values := by
  constructor
  · rintro heq ⟨v, hv, hcontested, honly⟩
    have hmem := mem_present.2 ⟨hv, hcontested.isNull⟩
    have hany (p : Scalar → Bool) : (values.filter fun v => !v.isNull).any p = p v := by
      rw [Bool.eq_iff_iff, List.any_eq_true]
      refine ⟨fun ⟨w, hw, hp⟩ => ?_, fun hp => ⟨v, hmem, hp⟩⟩
      obtain ⟨hw, hnull⟩ := mem_present.1 hw
      rwa [← (honly w hw).resolve_left (Bool.eq_false_iff.1 hnull)]
    rw [hany, hany] at heq
    exact Scalar.isTrue_eq_isNonzero_iff.1 heq hcontested
  · intro hnot
    by_contra hne
    -- Where one test finds a cell, the other one finds none, so that all cells are this one.
    obtain ⟨v, hv, hp, hq⟩ | ⟨v, hv, hp, hq⟩ := any_ne_any hne
    all_goals
      have hcontested : v.IsContested := Scalar.isContested_iff.2 (by simp [hp, hq v hv])
      obtain ⟨hmem, hnull⟩ := mem_present.1 hv
      refine hnot ⟨v, hmem, hcontested, fun w hw => ?_⟩
      cases hwnull : w.isNull with
      | true => exact .inl rfl
      | false =>
        have hwq := hq w (mem_present.2 ⟨hw, hwnull⟩)
        exact .inr (hcontested.unique (same_type h hmem hw hnull hwnull) (by simp [hq v hv, hwq]))

/-- **Everything is true if everything is different from zero**, unless a contested cell is there and not both
contested texts. -/
theorem all_isTrue_iff : ((values.filter fun v => !v.isNull).all Scalar.isTrue =
    (values.filter fun v => !v.isNull).all Scalar.isNonzero) ↔ ¬AggFunc.all.Disputes values := by
  have missing {v : Scalar} {p : Scalar → Bool} (hv : v ∈ values) (hnull : v.isNull = false)
      (hp : p v = false) : (values.filter fun v => !v.isNull).all p = false := by
    rw [List.all_eq_false]
    exact ⟨v, mem_present.2 ⟨hv, hnull⟩, by simp [hp]⟩
  have present {v : Scalar} {p : Scalar → Bool} (hp : (values.filter fun v => !v.isNull).all p = true)
      (hv : v ∈ values) (hnull : v.isNull = false) : p v = true :=
    List.all_eq_true.1 hp v (mem_present.2 ⟨hv, hnull⟩)
  have found {p : Scalar → Bool} (hp : (values.filter fun v => !v.isNull).all p = false) :
      ∃ v ∈ values, v.isNull = false ∧ p v = false := by
    obtain ⟨v, hv, hp⟩ := List.all_eq_false.1 hp
    obtain ⟨hv, hnull⟩ := mem_present.1 hv
    exact ⟨v, hv, hnull, Bool.not_eq_true _ ▸ hp⟩
  constructor
  · rintro heq ⟨⟨v, hv, hcontested⟩, hboth⟩
    have hpair : ∃ w ∈ values, w.isNull = false ∧
        (v.isTrue = false ∧ w.isNonzero = false ∨ v.isNonzero = false ∧ w.isTrue = false) := by
      have hne := Scalar.isContested_iff.1 hcontested
      cases hp : v.isTrue with
      | false =>
        obtain ⟨w, hw, hnull, hq⟩ := found (heq ▸ missing hv hcontested.isNull hp)
        exact ⟨w, hw, hnull, .inl ⟨rfl, hq⟩⟩
      | true =>
        have hq : v.isNonzero = false := eq_false_of_ne_true fun hq => hne (hp.trans hq.symm)
        obtain ⟨w, hw, hnull, hp⟩ := found (heq.trans (missing hv hcontested.isNull hq))
        exact ⟨w, hw, hnull, .inr ⟨hq, hp⟩⟩
    obtain ⟨w, hw, hnull, hsplit⟩ := hpair
    have htype := same_type h hv hw hcontested.isNull hnull
    obtain ⟨rfl, rfl⟩ | ⟨rfl, rfl⟩ := hcontested.partner htype hsplit
    · exact hboth ⟨hv, hw⟩
    · exact hboth ⟨hw, hv⟩
  · intro hnot
    by_contra hne
    cases hp : (values.filter fun v => !v.isNull).all Scalar.isTrue with
    | false =>
      have hq := eq_true_of_ne_false fun hq => hne (hp.trans hq.symm)
      obtain ⟨v, hv, hnull, hfalse⟩ := found hp
      have hcontested : v.IsContested := Scalar.isContested_iff.2 (by simp [hfalse, present hq hv hnull])
      exact hnot ⟨⟨v, hv, hcontested⟩, fun hboth => absurd (present hq hboth.2 rfl) (by decide)⟩
    | true =>
      have hq := eq_false_of_ne_true fun hq => hne (hp.trans hq.symm)
      obtain ⟨v, hv, hnull, hzero⟩ := found hq
      have hcontested : v.IsContested := Scalar.isContested_iff.2 (by simp [hzero, present hp hv hnull])
      exact hnot ⟨⟨v, hv, hcontested⟩, fun hboth => absurd (present hp hboth.1 rfl) (by decide)⟩

/-- **A query's `any` and `all` are those in memory, but for columns in dispute.** -/
theorem aggregate_truth {func : AggFunc} (hfunc : func = .any ∨ func = .all) {e : Expr} {scope : Scope}
    {rows : List (List Datum)} (ha : e.affinity scope = declaredAffinity type)
    (he : (rows.map fun row => e.eval scope row) = values.map (kept type)) :
    ∃ v d, aggregate func values = .ok v ∧ e.evalAggregate? scope rows func = some d ∧
      (d.toScalar.coerce .boolean = v ↔ ¬func.Disputes values) := by
  have coerced (b : Bool) : (Datum.ofBool b).toScalar.coerce .boolean = .bool b := by cases b <;> rfl
  have hnonzero := nonzero_values ha he h
  have htrue : ((values.filter fun v => !v.isNull).all fun v => v.truth? != some false) =
      (values.filter fun v => !v.isNull).all Scalar.isTrue := by
    rw [Bool.eq_iff_iff, List.all_eq_true, List.all_eq_true]
    refine forall₂_congr fun v hv => ?_
    obtain ⟨-, hnull⟩ := mem_present.1 hv
    obtain ⟨b, hb⟩ := Scalar.truth?_isSome hnull
    cases b <;> simp [Scalar.isTrue, hb]
  obtain rfl | rfl := hfunc
  · refine ⟨_, _, rfl, rfl, ?_⟩
    dsimp only
    rw [hnonzero, coalesce_greatest, coerced, Scalar.bool.injEq, List.any_map, eq_comm]
    exact any_isTrue_iff h
  · refine ⟨_, _, rfl, rfl, ?_⟩
    dsimp only
    rw [hnonzero, coalesce_least, coerced, Scalar.bool.injEq, List.all_map, eq_comm, htrue]
    exact all_isTrue_iff h

end

end LazyQuery
