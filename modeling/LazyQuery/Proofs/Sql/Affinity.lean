import LazyQuery.Proofs.Table.Conforms

/-!
# Affinities that suit a type

An affinity *suits* a column type if it converts no plain cell of the type: a column keeps such a cell
as it is, and a comparison with it is one of the values themselves. The affinities of columns that are
declared for a type, of computed columns, and of unions of suiting columns are of this kind.
-/

set_option autoImplicit false

namespace LazyQuery

open Sql

namespace Sql

@[simp] theorem Datum.isNull_ofScalar {v : Scalar} (h : v.isPlain = true) :
    (ofScalar v).isNull = v.isNull := by
  cases v <;> first | rfl | exact absurd h Bool.false_ne_true

/-- Where nothing but null is stored as null, it makes no difference whether nulls are left out before. -/
theorem Datum.present_ofScalar {values : List Scalar}
    (h : ∀ v ∈ values, (ofScalar v).isNull = v.isNull) :
    (values.map ofScalar).filter (fun v => !v.isNull) =
      (values.filter fun v => !v.isNull).map ofScalar := by
  rw [List.filter_map]
  exact congrArg _ (List.filter_congr fun v hv => by rw [Function.comp, h v hv])

namespace Affinity

/-- Does the affinity leave plain values of the type as they are? -/
def suits : Affinity → DataType → Bool
  | none, _ | blob, _ => true
  | integer, .boolean | integer, .int64 => true
  | text, .utf8 => true
  | _, _ => false

variable {a b : Affinity} {t u : DataType} {v w : Scalar}

theorem suits_declared (h : t.isPlain = true) : (declaredAffinity t).suits t = true := by
  cases t <;> first | rfl | exact absurd h Bool.false_ne_true

theorem suits_stored (h : a.suits t = true) : (if a = none then blob else a).suits t = true := by
  cases a <;> exact h

/-- A column of a suiting affinity keeps what it is given. -/
theorem keep_eq (h : a.suits t = true) (hv : t.admits v = true) :
    a.keep (Datum.ofScalar v) = Datum.ofScalar v := by
  cases a <;> cases t <;> cases v <;>
    simp_all [suits, DataType.admits, Scalar.isPlain, Scalar.isNull, Scalar.dataType, keep,
      Datum.ofScalar, Datum.ofBool, integral, numeric, textual]

/-- Values are compared as they are, if their affinities suit their types. -/
theorem comparable_eq (ha : a.suits t = true) (hb : b.suits u = true) (hv : t.admits v = true)
    (hw : u.admits w = true) (htu : t.comparableWith u = true) (hvn : v.isNull = false)
    (hwn : w.isNull = false) :
    comparable a (Datum.ofScalar v) b (Datum.ofScalar w) = (Datum.ofScalar v, Datum.ofScalar w) := by
  have same : t.isNumeric = u.isNumeric := by
    cases t <;> cases u <;> cases v <;> cases w <;>
      simp_all [DataType.comparableWith, DataType.admits, Scalar.isPlain, Scalar.isNull,
        Scalar.dataType, DataType.isNumeric]
  -- Numbers stay when they are compared as numbers, and texts when as texts.
  cases t <;> cases v <;> simp [DataType.admits, Scalar.isPlain, Scalar.isNull, Scalar.dataType] at hv hvn <;>
    cases u <;> cases w <;> simp [DataType.admits, Scalar.isPlain, Scalar.isNull, Scalar.dataType] at hw hwn <;>
    simp [DataType.isNumeric] at same <;> cases a <;> simp [suits] at ha <;> cases b <;>
    simp [suits] at hb <;> rfl

theorem dropWhile_mem {parts rest : List Affinity} (h : parts.dropWhile (· == none) = a :: rest) :
    a ∈ parts := by
  have hsub := (List.dropWhile_suffix (l := parts) (· == none)).subset
  rw [h] at hsub
  exact hsub (by simp)

/-- What suits in all parts of a compound suits in the compound. -/
theorem suits_ofParts {parts : List Affinity} (h : ∀ a ∈ parts, a.suits t = true) :
    (ofParts parts).suits t = true := by
  rw [ofParts]
  cases hd : parts.dropWhile (· == none) with
  | nil => rfl
  | cons chosen rest =>
    have hc := h chosen (dropWhile_mem hd)
    cases chosen <;> dsimp only <;> first | exact hc | (split <;> first | rfl | exact hc)

end Affinity
end Sql
end LazyQuery
