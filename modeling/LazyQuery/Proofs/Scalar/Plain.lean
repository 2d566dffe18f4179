import LazyQuery.Proofs.Scalar.Framing
import LazyQuery.Sql.Datum

/-!
# Plain cells

A cell is *plain* if it is missing, a truth value, an integer or a text. For plain cells the
relational store keeps the same order as memory, and the three notions of equality there are agree:
being equal in a comparison, having the same key, and being stored as the same value.

* `compare_ofScalar` and `compare_eq_iff` are about the order.
* `keyOf_eq_iff` is about keys.
* `sameTuple_iff` is about tuples of stored values.
-/

set_option autoImplicit false

namespace LazyQuery

open Sql
open scoped Numbers

/-- Is the cell missing, a truth value, an integer or a text? The length of a text fits in a word. -/
def Scalar.isPlain : Scalar → Bool
  | null | bool _ | int _ => true
  | text s => s.utf8ByteSize < 2 ^ 64
  | float _ | blob _ => false

namespace Scalar

/-! ## Order -/

theorem compareChars_eq_iff {a b : List Char} : compareChars a b = .eq ↔ a = b := by
  induction a generalizing b with
  | nil => cases b <;> simp [compareChars]
  | cons c a ih =>
    cases b with
    | nil => simp [compareChars]
    | cons d b =>
      have key : Ord.compare c.toNat d.toNat = .eq ↔ c = d := by
        rw [Nat.compare_eq_eq, Char.toNat_inj]
      rw [compareChars, List.cons.injEq, ← key, ← ih]
      cases Ord.compare c.toNat d.toNat <;> simp

theorem compare_ofScalar {a b : Scalar} (ha : a.isPlain = true) (hb : b.isPlain = true) :
    (Datum.ofScalar a).compare (Datum.ofScalar b) = a.compare b := by
  cases a <;> cases b <;>
    first
    | rfl
    | exact absurd ha Bool.false_ne_true
    | exact absurd hb Bool.false_ne_true

/-- Plain cells are equal in a comparison if they are stored as the same value. -/
theorem compare_eq_iff {a b : Scalar} (ha : a.isPlain = true) (hb : b.isPlain = true) :
    a.compare b = .eq ↔ Datum.ofScalar a = Datum.ofScalar b := by
  have ints (x y : Int64) : Ord.compare x.toInt y.toInt = .eq ↔ x = y := by
    rw [Int.compare_eq_eq, Int64.toInt_inj]
  have texts (s t : String) : compareChars s.toList t.toList = .eq ↔ s = t := by
    rw [compareChars_eq_iff, String.toList_inj]
  cases a <;> cases b <;>
    simp_all [compare, isPlain, Datum.ofScalar, Datum.ofBool, int?, float?, kindRank]

/-! ## Keys -/

theorem isSized_of_isPlain {v : Scalar} (h : v.isPlain = true) : v.isSized = true := by
  cases v with
  | text s => rw [isSized_text]; exact h
  | float | blob => cases h
  | _ => rfl

/-- Plain cells have the same frame if they are stored as the same value. -/
theorem frame_eq_iff_ofScalar {a b : Scalar} (ha : a.isPlain = true) (hb : b.isPlain = true) :
    a.frame = b.frame ↔ Datum.ofScalar a = Datum.ofScalar b := by
  have texts (s t : String) : s.toByteArray.toList = t.toByteArray.toList ↔ s = t := toUTF8_inj
  rw [frame_eq_iff (isSized_of_isPlain ha) (isSized_of_isPlain hb)]
  cases a <;> cases b <;>
    simp_all [isPlain, content, kindRank, Datum.ofScalar, Datum.ofBool, toUInt64_inj]

/-- **Tuples of plain cells have the same key if they are stored as the same tuple.** -/
theorem keyOf_eq_iff {xs ys : List Scalar} (hxs : ∀ v ∈ xs, v.isPlain = true)
    (hys : ∀ v ∈ ys, v.isPlain = true) (h : xs.length = ys.length) :
    keyOf xs = keyOf ys ↔ xs.map Datum.ofScalar = ys.map Datum.ofScalar := by
  rw [keyOf_eq_iff_frames (fun v hv => isSized_of_isPlain (hxs v hv))
    (fun v hv => isSized_of_isPlain (hys v hv)) h]
  induction xs generalizing ys with
  | nil =>
    obtain rfl := List.eq_nil_of_length_eq_zero h.symm
    exact iff_of_true .nil rfl
  | cons x xs ih =>
    cases ys with
    | nil => cases h
    | cons y ys =>
      rw [List.forall_mem_cons] at hxs hys
      rw [List.forall₂_cons, frame_eq_iff_ofScalar hxs.1 hys.1, ih hxs.2 hys.2 (Nat.succ_inj.1 h),
        List.map_cons, List.map_cons, List.cons.injEq]

end Scalar

namespace Sql.Datum

/-- Is the stored value that of a plain cell? -/
def isPlain : Datum → Bool
  | null | integer _ | text _ => true
  | real _ | blob _ => false

theorem isPlain_ofScalar {v : Scalar} (h : v.isPlain = true) : (ofScalar v).isPlain = true := by
  cases v <;> first | rfl | exact absurd h Bool.false_ne_true

theorem compare_eq_iff {a b : Datum} (ha : a.isPlain = true) (hb : b.isPlain = true) :
    a.compare b = .eq ↔ a = b := by
  have ints (x y : Int64) : Ord.compare x.toInt y.toInt = .eq ↔ x = y := by
    rw [Int.compare_eq_eq, Int64.toInt_inj]
  have texts (s t : String) : Scalar.compareChars s.toList t.toList = .eq ↔ s = t := by
    rw [Scalar.compareChars_eq_iff, String.toList_inj]
  cases a <;> cases b <;> simp_all [compare, isPlain, kindRank]

/-- **Tuples of plain values are the same if they are equal.** -/
theorem sameTuple_iff {xs ys : List Datum} (hxs : ∀ v ∈ xs, v.isPlain = true)
    (hys : ∀ v ∈ ys, v.isPlain = true) : sameTuple xs ys = true ↔ xs = ys := by
  induction xs generalizing ys with
  | nil => cases ys <;> simp [sameTuple]
  | cons x xs ih =>
    cases ys with
    | nil => simp [sameTuple]
    | cons y ys =>
      rw [List.forall_mem_cons] at hxs hys
      rw [sameTuple, Bool.and_eq_true, beq_iff_eq, compare_eq_iff hxs.1 hys.1, ih hxs.2 hys.2,
        List.cons.injEq]

end Sql.Datum
end LazyQuery
