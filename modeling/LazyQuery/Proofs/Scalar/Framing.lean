import LazyQuery.Scalar.Key
import Mathlib.Data.List.Forall2

/-!
# Frames

A key is the row of the frames of its cells, with nothing between them. It can be cut into its frames
again, as a frame says how long it is: a number has a word, and a text or a blob has its length before
it.

* `Content` is what a frame holds after the kind of its cell; `frame_eq_iff` says that a frame is its
  kind and its content.
* `frame_append_eq_iff` is the step: where two strings that start with frames are the same, the frames
  are, and so is what follows.
* `keyOf_eq_iff_frames` is about keys: they are equal if the cells have equal frames, position by
  position.
-/

set_option autoImplicit false

namespace LazyQuery

open scoped Numbers

/-- What a frame holds after the kind of the cell. -/
inductive Content
  | nothing
  | word (w : UInt64)
  | bytes (bs : List UInt8)
  deriving DecidableEq

/-- Does the length of the bytes fit in a word? -/
def Content.isSized : Content → Bool
  | nothing | word _ => true
  | bytes bs => bs.length < 2 ^ 64

namespace Scalar

/-- What the frame of a cell holds. -/
def content : Scalar → Content
  | null => .nothing
  | bool b => .word (bit b).toUInt64
  | int i => .word i.toUInt64
  | float x => .word (if framesAsInt x.value then (Binary.toInt64 x.value).toUInt64 else x.bits)
  | text s => .bytes s.toUTF8.toList
  | blob bs => .bytes bs

/-- Does the length of the text or the blob fit in a word? -/
def isSized (v : Scalar) : Bool := v.content.isSized

/-! ## Words and texts as bytes -/

theorem length_littleEndian (n v : Nat) : (littleEndian n v).length = n := by
  induction n generalizing v with
  | zero => rfl
  | succ n ih => simp [littleEndian, ih]

theorem littleEndian_inj {n v w : Nat} (hv : v < 256 ^ n) (hw : w < 256 ^ n) :
    littleEndian n v = littleEndian n w ↔ v = w := by
  induction n generalizing v w with
  | zero => simp_all
  | succ n ih =>
    have hv' : v / 256 < 256 ^ n := by rw [Nat.div_lt_iff_lt_mul (by decide)]; omega
    have hw' : w / 256 < 256 ^ n := by rw [Nat.div_lt_iff_lt_mul (by decide)]; omega
    have byte : UInt8.ofNat v = UInt8.ofNat w ↔ v % 256 = w % 256 := by
      rw [← UInt8.toNat_inj, UInt8.toNat_ofNat', UInt8.toNat_ofNat']
    rw [littleEndian, littleEndian, List.cons.injEq, ih hv' hw', byte]
    omega

theorem length_wordBytes (w : UInt64) : (wordBytes w).length = 8 := length_littleEndian 8 _

theorem wordBytes_inj {v w : UInt64} : wordBytes v = wordBytes w ↔ v = w := by
  have bound (u : UInt64) : u.toNat < 256 ^ 8 := u.toNat_lt
  rw [wordBytes, wordBytes, littleEndian_inj (bound v) (bound w), UInt64.toNat_inj]

theorem toUInt64_inj {i j : Int64} : i.toUInt64 = j.toUInt64 ↔ i = j :=
  ⟨fun h => by rw [← Int64.toInt64_toUInt64 i, h, Int64.toInt64_toUInt64], fun h => h ▸ rfl⟩

theorem toList_loop (bytes : ByteArray) (i : Nat) (front : List UInt8) :
    ByteArray.toList.loop bytes i front = front.reverse ++ bytes.data.toList.drop i := by
  induction hn : bytes.size - i generalizing i front with
  | zero =>
    have h : bytes.data.toList.length ≤ i := by simpa using Nat.le_of_sub_eq_zero hn
    rw [ByteArray.toList.loop, if_neg (by omega), List.drop_of_length_le h, List.append_nil]
  | succ n ih =>
    have hi : i < bytes.size := by omega
    have hlt : i < bytes.data.toList.length := by simpa using hi
    have hdrop := List.drop_eq_getElem_cons hlt
    have hget : bytes.get! i = bytes.data.toList[i] := by
      show bytes.data[i]! = _
      rw [getElem!_pos bytes.data i hi, Array.getElem_toList]
    rw [ByteArray.toList.loop, if_pos hi, ih _ _ (by omega), hdrop, hget]
    simp

theorem length_toUTF8 (s : String) : s.toUTF8.toList.length = s.utf8ByteSize := by
  rw [ByteArray.toList, toList_loop]
  simp

theorem toUTF8_inj {s t : String} : s.toUTF8.toList = t.toUTF8.toList ↔ s = t := by
  rw [ByteArray.toList, ByteArray.toList, toList_loop, toList_loop]
  rw [List.reverse_nil, List.nil_append, List.nil_append, List.drop_zero, List.drop_zero,
    Array.toList_inj, ← ByteArray.ext_iff, String.toUTF8_eq_toByteArray, String.toUTF8_eq_toByteArray,
    String.toByteArray_inj]

theorem append_inj_iff {xs xs' ys ys' : List UInt8} (h : xs.length = xs'.length) :
    xs ++ ys = xs' ++ ys' ↔ xs = xs' ∧ ys = ys' :=
  ⟨fun e => List.append_inj e h, fun ⟨e, e'⟩ => e ▸ e' ▸ rfl⟩

end Scalar

/-! ## Contents -/

namespace Content

open Scalar

/-- The bytes of a content. -/
def write : Content → List UInt8
  | nothing => []
  | word w => wordBytes w
  | bytes bs => littleEndian 8 bs.length ++ bs

/-- Are the contents of one form? The kind of a cell fixes the form of its content. -/
def Alike : Content → Content → Prop
  | nothing, nothing | word _, word _ | bytes _, bytes _ => True
  | _, _ => False

/-- **Contents of one form are no prefixes of each other.** -/
theorem write_append_eq_iff {c d : Content} (h : c.Alike d) (hc : c.isSized = true)
    (hd : d.isSized = true) {xs ys : List UInt8} :
    c.write ++ xs = d.write ++ ys ↔ c = d ∧ xs = ys := by
  cases c with
  | nothing =>
    cases d with
    | nothing => exact (and_iff_right rfl).symm
    | word | bytes => exact h.elim
  | word v =>
    cases d with
    | word w =>
      rw [write, write, append_inj_iff (by rw [length_wordBytes, length_wordBytes]), wordBytes_inj,
        word.injEq]
    | nothing | bytes => exact h.elim
  | bytes bs =>
    cases d with
    | bytes cs =>
      rw [isSized, decide_eq_true_iff] at hc hd
      rw [write, write, List.append_assoc, List.append_assoc,
        append_inj_iff (by rw [length_littleEndian, length_littleEndian]), littleEndian_inj hc hd,
        bytes.injEq]
      constructor
      · rintro ⟨hlength, happend⟩
        exact (append_inj_iff hlength).1 happend
      · rintro ⟨rfl, rfl⟩
        exact ⟨rfl, rfl⟩
    | nothing | word => exact h.elim

end Content

/-! ## Frames and keys -/

namespace Scalar

theorem isSized_text {s : String} : (text s).isSized = decide (s.utf8ByteSize < 2 ^ 64) := by
  rw [isSized, content, Content.isSized, length_toUTF8]

theorem payload_eq (v : Scalar) : v.payload = v.content.write := by
  cases v with
  | float x =>
    rw [payload, content, Content.write]
    split <;> rfl
  | text s => rw [payload, content, Content.write, length_toUTF8]
  | _ => rfl

theorem alike_content {a b : Scalar} (h : a.kindRank = b.kindRank) : a.content.Alike b.content := by
  cases a <;> cases b <;> first | trivial | cases h

/-- **Where strings that start with frames are the same, the frames are, and what follows.** -/
theorem frame_append_eq_iff {a b : Scalar} (ha : a.isSized = true) (hb : b.isSized = true)
    {xs ys : List UInt8} :
    a.frame ++ xs = b.frame ++ ys ↔ (a.kindRank = b.kindRank ∧ a.content = b.content) ∧ xs = ys := by
  have kinds : UInt8.ofNat a.kindRank = UInt8.ofNat b.kindRank ↔ a.kindRank = b.kindRank := by
    have bound (v : Scalar) : v.kindRank < 2 ^ 8 := by cases v <;> simp [kindRank]
    rw [← UInt8.toNat_inj, UInt8.toNat_ofNat', UInt8.toNat_ofNat', Nat.mod_eq_of_lt (bound a),
      Nat.mod_eq_of_lt (bound b)]
  rw [frame, frame, List.cons_append, List.cons_append, List.cons.injEq, kinds, payload_eq,
    payload_eq, and_assoc]
  exact and_congr_right fun h => Content.write_append_eq_iff (alike_content h) ha hb

theorem frame_eq_iff {a b : Scalar} (ha : a.isSized = true) (hb : b.isSized = true) :
    a.frame = b.frame ↔ a.kindRank = b.kindRank ∧ a.content = b.content := by
  rw [← List.append_nil a.frame, ← List.append_nil b.frame, frame_append_eq_iff ha hb, eq_self,
    and_true]

theorem frame_ne {a b : Scalar} (ha : a.isSized = true) (hb : b.isSized = true)
    (h : a.kindRank ≠ b.kindRank) : a.frame ≠ b.frame := fun hf => h ((frame_eq_iff ha hb).1 hf).1

theorem frame_text {s t : String} (hs : (text s).isSized = true) (ht : (text t).isSized = true) :
    (text s).frame = (text t).frame ↔ s = t := by
  rw [frame_eq_iff hs ht, content, content, Content.bytes.injEq, toUTF8_inj]
  exact and_iff_right rfl

theorem frame_blob {xs ys : List UInt8} (hx : (blob xs).isSized = true)
    (hy : (blob ys).isSized = true) : (blob xs).frame = (blob ys).frame ↔ xs = ys := by
  rw [frame_eq_iff hx hy, content, content, Content.bytes.injEq]
  exact and_iff_right rfl

theorem keyOf_singleton (v : Scalar) : keyOf [v] = v.frame := List.append_nil _

/-- **Two keys over as many cells are equal if the cells have equal frames, position by position.** -/
theorem keyOf_eq_iff_frames {xs ys : List Scalar} (hxs : ∀ v ∈ xs, v.isSized = true)
    (hys : ∀ v ∈ ys, v.isSized = true) (h : xs.length = ys.length) :
    keyOf xs = keyOf ys ↔ List.Forall₂ (fun a b => a.frame = b.frame) xs ys := by
  induction xs generalizing ys with
  | nil =>
    obtain rfl := List.eq_nil_of_length_eq_zero h.symm
    exact iff_of_true rfl .nil
  | cons x xs ih =>
    cases ys with
    | nil => cases h
    | cons y ys =>
      rw [List.forall_mem_cons] at hxs hys
      have ih := ih hxs.2 hys.2 (Nat.succ_inj.1 h)
      rw [List.forall₂_cons, ← ih, frame_eq_iff hxs.1 hys.1]
      exact frame_append_eq_iff hxs.1 hys.1

end Scalar
end LazyQuery
