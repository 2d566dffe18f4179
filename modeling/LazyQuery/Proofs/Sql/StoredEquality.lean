import LazyQuery.Proofs.Scalar.Equality
import LazyQuery.Sql.Eval

/-!
# Cells that are equal in a query

A query compares what columns keep of their cells, and texts are read as numbers where a column of
numbers is compared with them. A join in memory compares frames. `frame_eq_iff_storedEqual` says for
which cells that is the same: for all but misframed numbers, and numbers with texts that read as them
(`ReadsAs`).

* `frame_eq_iff_value` is about two numbers, which a query compares by their exact values.
* `kept_number` says that columns of numbers keep these values, though not the sign of zero.
-/

set_option autoImplicit false

namespace LazyQuery

/-- Is the cell no undefined float? -/
def Scalar.isDefined : Scalar → Bool
  | float x => !x.isNaN
  | _ => true

theorem Scalar.isNaN_eq_false {x : Double} (h : (float x).isDefined = true) : x.isNaN = false := by
  simpa [isDefined] using h

namespace Sql

open Binary (compareFloat compareInt IsZero)
open Scalar (framesAsInt Misframed)
open scoped Numbers

variable {v w : Scalar} {t u : DataType} {i j : Int64} {x y : Double} {c d : Datum}

/-- What a column that is declared for a type keeps of a cell. -/
def kept (t : DataType) (v : Scalar) : Datum := (declaredAffinity t).keep (Datum.ofScalar v)

/-- Are a cell of a column of one type and a cell of a column of another equal in a query? -/
def storedEqual (t : DataType) (v : Scalar) (u : DataType) (w : Scalar) : Bool :=
  (Expr.applyCompare .eq (declaredAffinity t) (kept t v) (declaredAffinity u) (kept u w)).truth? ==
    some true

/-- The cell is a number, and the other one a text that is wholly a number of its value. -/
def ReadsAs (v w : Scalar) : Prop :=
  v.float?.isSome = true ∧ ∃ s n, w = .text s ∧ Datum.wholeNumber? s = some n ∧
    (Datum.ofScalar v).compare n = .eq

/-- Cells that a join in memory and a query do not agree about. -/
def Disputed (v w : Scalar) : Prop := Misframed v w ∨ ReadsAs v w ∨ ReadsAs w v

/-! ## Comparisons of stored values -/

/-- Values of different kinds are not equal. -/
theorem Datum.compare_ne (hk : c.kindRank ≠ d.kindRank) : c.compare d ≠ .eq := by
  have h : c.compare d = Ord.compare c.kindRank d.kindRank := by
    cases c <;> cases d <;> first | rfl | exact absurd rfl hk
  rwa [h, Ne, Nat.compare_eq_eq]

theorem Datum.compare_comm : c.compare d = .eq ↔ d.compare c = .eq := by
  have swapped (o : Ordering) : o = .eq ↔ o.swap = .eq := by cases o <;> decide
  by_cases hk : c.kindRank = d.kindRank
  · cases c with
    | null => cases d <;> first | rfl | cases hk
    | integer =>
      cases d with
      | integer => rw [compare, compare, Int.compare_eq_eq, Int.compare_eq_eq, eq_comm]
      | real => exact swapped _
      | null | text | blob => cases hk
    | real =>
      cases d with
      | integer => exact (swapped _).symm
      | real => exact Binary.compareFloat_comm
      | null | text | blob => cases hk
    | text =>
      cases d with
      | text => rw [compare, compare, Scalar.compareChars_eq_iff, Scalar.compareChars_eq_iff, eq_comm]
      | _ => cases hk
    | blob =>
      cases d with
      | blob => rw [compare, compare, Scalar.compareBytes_eq_iff, Scalar.compareBytes_eq_iff, eq_comm]
      | _ => cases hk
  · exact iff_of_false (compare_ne hk) (compare_ne (Ne.symm hk))

/-- A zero is equal to what the other zero is equal to. -/
theorem Datum.compare_zero {x y : Float} (hx : IsZero x) (hy : IsZero y) (d : Datum) :
    (real x).compare d = .eq ↔ (real y).compare d = .eq := by
  cases d with
  | integer i =>
    have hx' := Binary.compareInt_framed (Binary.framesAsInt_of_isZero hx) (i := i)
    have hy' := Binary.compareInt_framed (Binary.framesAsInt_of_isZero hy) (i := i)
    rw [compare_comm, compare_comm (d := integer i)]
    change compareInt _ _ = _ ↔ compareInt _ _ = _
    rw [hx', hy', Binary.toInt64_of_isZero hx, Binary.toInt64_of_isZero hy]
  | real z =>
    change compareFloat x z = .eq ↔ compareFloat y z = .eq
    rw [Binary.compareFloat_zero hx, Binary.compareFloat_zero hy]
  | null | text | blob => rfl

/-- If one of two columns is one of numbers, texts are read as numbers. -/
theorem comparable_declared (t u : DataType) (c d : Datum) :
    comparable (declaredAffinity t) c (declaredAffinity u) d =
      if (declaredAffinity t).isNumeric || (declaredAffinity u).isNumeric then
        (Affinity.numeric c, Affinity.numeric d) else (c, d) := by
  cases t <;> cases u <;> rfl

/-- A comparison for equality, where a result is asked for. -/
theorem storedEqual_iff : storedEqual t v u w = true ↔
    (kept t v).isNull = false ∧ (kept u w).isNull = false ∧
      (comparable (declaredAffinity t) (kept t v) (declaredAffinity u) (kept u w)).1.compare
        (comparable (declaredAffinity t) (kept t v) (declaredAffinity u) (kept u w)).2 = .eq := by
  have truth (b : Bool) : (Datum.ofBool b).truth? = some b := by cases b <;> rfl
  rw [storedEqual, Expr.applyCompare, beq_iff_eq]
  cases (kept t v).isNull with
  | true => exact iff_of_false nofun nofun
  | false =>
    cases (kept u w).isNull with
    | true => exact iff_of_false nofun nofun
    | false =>
      rw [Bool.or_self, if_neg Bool.false_ne_true, truth]
      simp [CompareOp.holds]

/-! ## Frames and values of numbers -/

theorem ofScalar_int (h : v.int? = some i) : Datum.ofScalar v = .integer i := by
  cases v <;> first | exact congrArg Datum.integer (Option.some.inj h) | cases h

theorem ofScalar_float (h : x.isNaN = false) : Datum.ofScalar (.float x) = .real x.value :=
  if_neg (Bool.not_eq_true _ ▸ h)

theorem compare_int_float (hv : v.int? = some i) (hn : x.isNaN = false) :
    (Datum.ofScalar v).compare (Datum.ofScalar (.float x)) = compareInt i.toInt x.value := by
  rw [ofScalar_int hv, ofScalar_float hn]
  rfl

/-- Two numbers that are misframed are told apart by one of their frames and their values alone. -/
theorem not_iff_of_misframed (h : Misframed v w) :
    ¬ (v.frame = w.frame ↔ (Datum.ofScalar v).compare (Datum.ofScalar w) = .eq) := by
  induction h with
  | @word v i x hv hx hword =>
    -- The frames are the same. The values differ, as one of them is an integer in range and the other
    -- is not, but for the least integer, which has another word.
    rw [Scalar.frame_held_unframed hv hx, iff_true_left hword]
    have hnull (hn : x.isNaN = true) : Datum.ofScalar (.float x) = .null := if_pos hn
    cases v with
    | bool | int =>
      obtain rfl := Option.some.inj hv
      cases hn : x.isNaN with
      | true =>
        rw [hnull hn]
        exact Datum.compare_ne Nat.one_ne_zero
      | false =>
        rw [compare_int_float rfl hn, Binary.compareInt_unframed hx]
        rintro ⟨hi, hleast⟩
        rw [Scalar.eq_least hleast, hi] at hword
        exact absurd hword (by decide)
    | float y =>
      rw [Scalar.heldAs?] at hv
      split at hv
      · rename_i hy
        rw [ofScalar_float (Binary.isNaN_of_framed hy)]
        cases hn : x.isNaN with
        | true =>
          rw [hnull hn]
          exact Datum.compare_ne Nat.one_ne_zero
        | false =>
          rw [ofScalar_float hn]
          exact Binary.compareFloat_framed_unframed hy hx
      · cases hv
    | null | text | blob => cases hv
  | least =>
    rw [Scalar.frame_held_unframed rfl rfl]
    decide
  | symm _ ih => rwa [eq_comm, Datum.compare_comm]

theorem agree_int_float (hv : v.int? = some i) (hn : x.isNaN = false)
    (h : ¬ Misframed v (.float x)) : v.frame = (Scalar.float x).frame ↔
      (Datum.ofScalar v).compare (Datum.ofScalar (.float x)) = .eq := by
  have hheld := Scalar.heldAs?_of_int? hv
  rw [compare_int_float hv hn]
  cases hx : framesAsInt x.value with
  | true =>
    rw [Scalar.frame_held hheld (Scalar.heldAs?_float hx), Binary.compareInt_framed hx, eq_comm]
  | false =>
    rw [Scalar.frame_held_unframed hheld hx, Binary.compareInt_unframed hx]
    refine iff_of_false (fun hw => h (.word hheld hx hw)) ?_
    rintro ⟨rfl, hleast⟩
    rw [Scalar.eq_minValue hv, Scalar.eq_least hleast] at h
    exact h .least

theorem number_cases (h : v.float?.isSome = true) : (∃ i, v.int? = some i) ∨ ∃ x, v = .float x := by
  cases v with
  | bool | int => exact .inl ⟨_, rfl⟩
  | float => exact .inr ⟨_, rfl⟩
  | null | text | blob => cases h

/-- **Two numbers have one frame if they have one value**, unless they are misframed. -/
theorem frame_eq_iff_value (hv : v.float?.isSome = true) (hw : w.float?.isSome = true)
    (hdv : v.isDefined = true) (hdw : w.isDefined = true) :
    (v.frame = w.frame ↔ (Datum.ofScalar v).compare (Datum.ofScalar w) = .eq) ↔ ¬ Misframed v w := by
  refine ⟨fun h hm => not_iff_of_misframed hm h, fun h => ?_⟩
  obtain ⟨i, hi⟩ | ⟨x, rfl⟩ := number_cases hv
  · obtain ⟨j, hj⟩ | ⟨y, rfl⟩ := number_cases hw
    · rw [Scalar.frame_held (Scalar.heldAs?_of_int? hi) (Scalar.heldAs?_of_int? hj), ofScalar_int hi,
        ofScalar_int hj, Datum.compare, Int.compare_eq_eq, Int64.toInt_inj]
    · exact agree_int_float hi (Scalar.isNaN_eq_false hdw) h
  · obtain ⟨j, hj⟩ | ⟨y, rfl⟩ := number_cases hw
    · rw [eq_comm, Datum.compare_comm]
      exact agree_int_float hj (Scalar.isNaN_eq_false hdv) fun hm => h hm.symm
    · rw [ofScalar_float (Scalar.isNaN_eq_false hdv), ofScalar_float (Scalar.isNaN_eq_false hdw)]
      refine Scalar.agree_float h fun hx _ => ?_
      rw [Scalar.isNaN_eq_false hdv] at hx
      cases hx

/-! ## What columns keep -/

/-- A column of floats keeps a float that is not the zero with a sign. -/
theorem Affinity.keep_real {y : Float} (hn : y.isNaN = false) (hz : y.toBits ≠ Double.signBit) :
    real.keep (Datum.ofFloat y) = .real y := by
  rw [Datum.ofFloat, hn, if_neg Bool.false_ne_true]
  change floating (integral (.real y)) = _
  rw [integral]
  split
  · rename_i h
    simp only [Bool.and_eq_true, decide_eq_true_eq] at h
    rw [floating, Binary.floatOfInt_toInt64 h.1.1 hz h.1.2 h.2]
  · rfl

/-- A column of floats keeps a float, but that a zero loses its sign. -/
theorem kept_float (hn : x.isNaN = false) : ∃ y, kept .float64 (.float x) = .real y ∧
    (y = x.value ∨ IsZero x.value ∧ IsZero y) := by
  by_cases hz : x.value.toBits = Double.signBit
  · have hzero : IsZero x.value := .inr (by rw [← hz, Float.ofBits_toBits])
    refine ⟨.ofBits 0, ?_, .inr ⟨hzero, .inl rfl⟩⟩
    have hintegral : Affinity.integral (.real x.value) = .integer 0 := by
      rw [Affinity.integral, Binary.toInt64_of_isZero hzero, (Binary.isIntegral_of_isZero hzero).1]
      rfl
    change Affinity.real.keep (Datum.ofScalar (.float x)) = _
    rw [ofScalar_float hn]
    exact congrArg Affinity.floating hintegral
  · exact ⟨x.value, Affinity.keep_real hn hz, .inl rfl⟩

/-- A column of numbers keeps the value of a number. -/
theorem kept_number (hv : v.float?.isSome = true) (hd : v.isDefined = true) :
    (declaredAffinity v.dataType).isNumeric = true ∧ (kept v.dataType v).isNull = false ∧
      Affinity.numeric (kept v.dataType v) = kept v.dataType v ∧
        ∀ d, (kept v.dataType v).compare d = .eq ↔ (Datum.ofScalar v).compare d = .eq := by
  cases v with
  | bool | int => exact ⟨rfl, rfl, rfl, fun _ => Iff.rfl⟩
  | float x =>
    have hn := Scalar.isNaN_eq_false hd
    obtain ⟨y, hy, hsame⟩ := kept_float hn
    change _ ∧ (kept .float64 (.float x)).isNull = false ∧ _ ∧ ∀ d, _
    refine ⟨rfl, by rw [hy]; rfl, by rw [Scalar.dataType, hy]; rfl, fun d => ?_⟩
    rw [Scalar.dataType, hy, ofScalar_float hn]
    obtain rfl | ⟨hx, hy⟩ := hsame
    · rfl
    · exact Datum.compare_zero hy hx d
  | null | text | blob => cases hv

/-- A number is equal to nothing else than numbers. -/
theorem compare_ne (hv : v.float?.isSome = true) (hd : v.isDefined = true) (hk : d.kindRank ≠ 1) :
    (Datum.ofScalar v).compare d ≠ .eq := by
  have hrank : (Datum.ofScalar v).kindRank = 1 := by
    obtain ⟨i, hi⟩ | ⟨x, rfl⟩ := number_cases hv
    · rw [ofScalar_int hi]
      rfl
    · rw [ofScalar_float (Scalar.isNaN_eq_false hd)]
      rfl
  exact Datum.compare_ne (hrank ▸ hk.symm)

/-! ## Frames and equality in a query -/

theorem storedEqual_comm : storedEqual t v u w = storedEqual u w t v := by
  rw [Bool.eq_iff_iff, storedEqual_iff, storedEqual_iff, comparable_declared, comparable_declared,
    Bool.or_comm, and_left_comm]
  refine and_congr_right fun _ => and_congr_right fun _ => ?_
  split <;> exact Datum.compare_comm

theorem storedEqual_numbers (hv : v.float?.isSome = true) (hw : w.float?.isSome = true)
    (hdv : v.isDefined = true) (hdw : w.isDefined = true) :
    storedEqual v.dataType v w.dataType w = true ↔
      (Datum.ofScalar v).compare (Datum.ofScalar w) = .eq := by
  obtain ⟨hav, hnv, hkv, hcv⟩ := kept_number hv hdv
  obtain ⟨-, hnw, hkw, hcw⟩ := kept_number hw hdw
  rw [storedEqual_iff, comparable_declared, hav, Bool.true_or, if_pos rfl, hkv, hkw, hcv,
    Datum.compare_comm, hcw, Datum.compare_comm, and_iff_right hnw, and_iff_right hnv]

theorem readsAs_text {s : String} : ReadsAs v (.text s) ↔ v.float?.isSome = true ∧
    ∃ n, Datum.wholeNumber? s = some n ∧ (Datum.ofScalar v).compare n = .eq := by
  simp [ReadsAs]

theorem storedEqual_text (hv : v.float?.isSome = true) (hd : v.isDefined = true) (s : String) :
    storedEqual v.dataType v .utf8 (.text s) = true ↔ ReadsAs v (.text s) := by
  obtain ⟨ha, hn, hk, hc⟩ := kept_number hv hd
  have hkept : kept .utf8 (.text s) = .text s := rfl
  rw [storedEqual_iff, comparable_declared, ha, Bool.true_or, if_pos rfl, hk, hc, hkept,
    and_iff_right hn, and_iff_right (a := (Datum.text s).isNull = false) rfl, Affinity.numeric,
    readsAs_text, and_iff_right hv]
  cases Datum.wholeNumber? s with
  | none => exact iff_of_false (compare_ne hv hd nofun) nofun
  | some n => simp

/-- A number and a blob are different in a query. -/
theorem storedEqual_blob (hv : v.float?.isSome = true) (hd : v.isDefined = true)
    (bytes : List UInt8) : ¬ storedEqual v.dataType v .binary (.blob bytes) = true := by
  obtain ⟨ha, -, hk, hc⟩ := kept_number hv hd
  have hrank : (kept .binary (.blob bytes)).kindRank ≠ 1 := nofun
  rw [storedEqual_iff, comparable_declared, ha, Bool.true_or, if_pos rfl, hk, hc]
  exact fun h => compare_ne hv hd hrank h.2.2

theorem ReadsAs.not_isNumber (h : ReadsAs v w) : ¬ w.float?.isSome = true := by
  obtain ⟨-, s, n, rfl, -⟩ := h
  exact nofun

theorem disputed_comm : Disputed v w ↔ Disputed w v := by
  have symm {v w : Scalar} : Disputed v w → Disputed w v
    | .inl h => .inl h.symm
    | .inr h => .inr h.symm
  exact ⟨symm, symm⟩

theorem Disputed.isNumber (h : Disputed v w) : v.float?.isSome = true ∨ w.float?.isSome = true := by
  obtain h | h | h := h
  · exact .inl h.isNumber.1
  · exact .inl h.1
  · exact .inr h.1

/-- A number and any other cell. -/
theorem agree_number (hv : v.float?.isSome = true) (hw : w.isNull = false)
    (hdv : v.isDefined = true) (hdw : w.isDefined = true) (hsv : v.isSized = true)
    (hsw : w.isSized = true) :
    (v.frame = w.frame ↔ storedEqual v.dataType v w.dataType w = true) ↔ ¬ Disputed v w := by
  have hrank : v.kindRank = 1 := by cases v <;> first | rfl | cases hv
  have apart (hk : 1 ≠ w.kindRank) : v.frame ≠ w.frame := Scalar.frame_ne hsv hsw (hrank ▸ hk)
  cases w with
  | null => cases hw
  | bool | int | float =>
    rw [storedEqual_numbers hv rfl hdv hdw, frame_eq_iff_value hv rfl hdv hdw, Disputed, or_iff_left]
    exact fun h => h.elim (fun h => h.not_isNumber rfl) fun h => h.not_isNumber hv
  | text s =>
    -- The frames are of two kinds, and the query decides by what the text reads as.
    rw [iff_false_left (apart nofun)]
    refine not_congr ((storedEqual_text hv hdv s).trans ⟨fun h => .inr (.inl h), ?_⟩)
    rintro (h | h | h)
    · cases h.isNumber.2
    · exact h
    · cases h.1
  | blob bytes =>
    refine iff_of_true (iff_of_false (apart nofun) (storedEqual_blob hv hdv bytes)) ?_
    rintro (h | ⟨-, s, n, h, -⟩ | h)
    · cases h.isNumber.2
    · cases h
    · cases h.1

/-- Texts and blobs have the same frame if they are the same. -/
theorem agree_others (hv : v.isNull = false) (hw : w.isNull = false)
    (hnv : ¬ v.float?.isSome = true) (hnw : ¬ w.float?.isSome = true) (hsv : v.isSized = true)
    (hsw : w.isSized = true) :
    v.frame = w.frame ↔ storedEqual v.dataType v w.dataType w = true := by
  rw [storedEqual_iff, comparable_declared]
  cases v with
  | null => cases hv
  | bool | int | float => exact absurd rfl hnv
  | text s =>
    cases w with
    | null => cases hw
    | bool | int | float => exact absurd rfl hnw
    | text s' =>
      rw [Scalar.frame_text hsv hsw, ← String.toList_inj, ← Scalar.compareChars_eq_iff]
      exact ⟨fun h => ⟨rfl, rfl, h⟩, fun h => h.2.2⟩
    | blob => exact iff_of_false (Scalar.frame_ne hsv hsw nofun) fun h => nomatch h.2.2
  | blob bytes =>
    cases w with
    | null => cases hw
    | bool | int | float => exact absurd rfl hnw
    | text => exact iff_of_false (Scalar.frame_ne hsv hsw nofun) fun h => nomatch h.2.2
    | blob bytes' =>
      rw [Scalar.frame_blob hsv hsw, ← Scalar.compareBytes_eq_iff]
      exact ⟨fun h => ⟨rfl, rfl, h⟩, fun h => h.2.2⟩

/-- **Two cells are equal in a query if they have one frame**, in columns of their own types, unless the
cells are disputed. -/
theorem frame_eq_iff_storedEqual (hv : v.isNull = false) (hw : w.isNull = false)
    (hdv : v.isDefined = true) (hdw : w.isDefined = true) (hsv : v.isSized = true)
    (hsw : w.isSized = true) :
    (v.frame = w.frame ↔ storedEqual v.dataType v w.dataType w = true) ↔ ¬ Disputed v w := by
  -- Both sides are symmetric, so that a number can be taken to be the first cell.
  by_cases hnv : v.float?.isSome = true
  · exact agree_number hnv hw hdv hdw hsv hsw
  by_cases hnw : w.float?.isSome = true
  · rw [eq_comm, storedEqual_comm, disputed_comm]
    exact agree_number hnw hv hdw hdv hsw hsv
  exact iff_of_true (agree_others hv hw hnv hnw hsv hsw) fun h => h.isNumber.elim hnv hnw

/-! ## Missing cells -/

theorem storedEqual_null (h : v.isNull = true) : ¬ storedEqual t v u w = true := by
  have hkept : (kept t v).isNull = true := by
    cases v with
    | null => cases t <;> rfl
    | _ => cases h
  rw [storedEqual_iff, hkept]
  exact nofun

theorem not_disputed_null (h : v.isNull = true) : ¬ Disputed v w := by
  have hnumber : ¬ v.float?.isSome = true := by
    cases v with
    | null => exact nofun
    | _ => cases h
  rintro (hm | hm | ⟨-, s, n, rfl, -⟩)
  · exact hnumber hm.isNumber.1
  · exact hnumber hm.1
  · cases h

end Sql
end LazyQuery
