import LazyQuery.Proofs.Scalar.Comparison
import LazyQuery.Proofs.Scalar.Plain

/-!
# Equal cells and equal frames

Two cells that are equal in a comparison should have the same frame, and only they. For texts, blobs
and most numbers it is so. `Discord` lists the numbers for which it is not, and
`frame_eq_iff_compare` says that there are no others.
-/

set_option autoImplicit false

namespace LazyQuery.Scalar

open Binary (compareFloat compareInt)
open scoped Numbers

variable {a b : Scalar} {i j : Int64} {x y : Double}

/-- The integer that a number is framed as, if it is framed as one. -/
def heldAs? : Scalar → Option Int64
  | bool b => some (bit b)
  | int i => some i
  | float x => if framesAsInt x.value then some (Binary.toInt64 x.value) else none
  | _ => none

/-- Two numbers of which the frames say something else than their values. -/
inductive Misframed : Scalar → Scalar → Prop
  /-- A float that is not framed as an integer has the word of the integer that another number is
  framed as. -/
  | word {a : Scalar} {i : Int64} {x : Double} (ha : a.heldAs? = some i)
      (hx : framesAsInt x.value = false) (hword : x.bits = i.toUInt64) : Misframed a (float x)
  /-- The least integer is a float which is not framed as an integer. -/
  | least : Misframed (int Int64.minValue) (float (.ofFloat Binary.least))
  | symm {a b : Scalar} (h : Misframed a b) : Misframed b a

/-- Two numbers of which the frames say something else than the comparison. -/
inductive Discord : Scalar → Scalar → Prop
  | misframed {a b : Scalar} (h : Misframed a b) : Discord a b
  /-- A float is the nearest to an integer, and not the integer itself. -/
  | nearest {a : Scalar} {i : Int64} {x : Double} (ha : a.int? = some i)
      (hx : floatOfInt i = x.value) (hne : compareInt i.toInt x.value ≠ .eq) : Discord a (float x)
  /-- Floats that are undefined are equal in a comparison and keep their words. -/
  | undefined {x y : Double} (hx : x.isNaN = true) (hy : y.isNaN = true) (hne : x ≠ y) :
      Discord (float x) (float y)
  | symm {a b : Scalar} (h : Discord a b) : Discord b a

theorem Misframed.isNumber (h : Misframed a b) : a.float?.isSome = true ∧ b.float?.isSome = true := by
  induction h with
  | @word a i x ha =>
    refine ⟨?_, rfl⟩
    cases a <;> first | rfl | cases ha
  | least => exact ⟨rfl, rfl⟩
  | symm _ ih => exact ih.symm

/-! ## Frames of numbers -/

theorem heldAs?_of_int? (h : a.int? = some i) : a.heldAs? = some i := by
  cases a <;> first | exact h | cases h

theorem heldAs?_float (h : framesAsInt x.value = true) :
    (float x).heldAs? = some (Binary.toInt64 x.value) := if_pos h

theorem heldAs?_spec (h : a.heldAs? = some i) :
    a.isSized = true ∧ a.kindRank = 1 ∧ a.content = .word i.toUInt64 := by
  cases a with
  | float x =>
    rw [heldAs?] at h
    split at h
    · rename_i hx
      obtain rfl := Option.some.inj h
      exact ⟨rfl, rfl, congrArg Content.word (if_pos hx)⟩
    · cases h
  | bool | int =>
    obtain rfl := Option.some.inj h
    exact ⟨rfl, rfl, rfl⟩
  | null | text | blob => cases h

theorem content_unframed (h : framesAsInt x.value = false) : (float x).content = .word x.bits :=
  congrArg Content.word (if_neg (h ▸ Bool.false_ne_true))

theorem frame_held (ha : a.heldAs? = some i) (hb : b.heldAs? = some j) :
    a.frame = b.frame ↔ i = j := by
  obtain ⟨hsa, hka, hca⟩ := heldAs?_spec ha
  obtain ⟨hsb, hkb, hcb⟩ := heldAs?_spec hb
  rw [frame_eq_iff hsa hsb, hka, hkb, hca, hcb, Content.word.injEq, toUInt64_inj]
  exact and_iff_right rfl

theorem frame_held_unframed (ha : a.heldAs? = some i) (hx : framesAsInt x.value = false) :
    a.frame = (float x).frame ↔ x.bits = i.toUInt64 := by
  obtain ⟨hsa, hka, hca⟩ := heldAs?_spec ha
  rw [frame_eq_iff hsa rfl, hka, hca, content_unframed hx, Content.word.injEq, eq_comm (b := x.bits)]
  exact and_iff_right rfl

theorem frame_unframed (hx : framesAsInt x.value = false) (hy : framesAsInt y.value = false) :
    (float x).frame = (float y).frame ↔ x = y := by
  rw [frame_eq_iff rfl rfl, content_unframed hx, content_unframed hy, Content.word.injEq]
  exact ⟨fun h => congrArg Double.mk h.2, fun h => ⟨rfl, congrArg Double.bits h⟩⟩

/-! ## Comparisons of numbers -/

theorem compareBytes_eq_iff {xs ys : List UInt8} : compareBytes xs ys = .eq ↔ xs = ys := by
  induction xs generalizing ys with
  | nil => cases ys <;> simp [compareBytes]
  | cons c xs ih =>
    cases ys with
    | nil => simp [compareBytes]
    | cons d ys =>
      have key : Ord.compare c.toNat d.toNat = .eq ↔ c = d := by
        rw [Nat.compare_eq_eq, UInt8.toNat_inj]
      rw [compareBytes, List.cons.injEq, ← key, ← ih]
      cases Ord.compare c.toNat d.toNat <;> simp

theorem compare_of_int? (ha : a.int? = some i) (hb : b.int? = some j) :
    a.compare b = Ord.compare i.toInt j.toInt := by
  cases a <;> cases b <;> cases ha <;> cases hb <;> rfl

theorem compare_int (ha : a.int? = some i) (hb : b.int? = some j) : a.compare b = .eq ↔ i = j := by
  rw [compare_of_int? ha hb, Int.compare_eq_eq, Int64.toInt_inj]

theorem compare_int_float (ha : a.int? = some i) :
    a.compare (float x) = compareFloat (floatOfInt i) x.value := by
  rw [← Double.value_ofFloat (floatOfInt i)]
  cases a <;> cases ha <;> rfl

/-- Cells of different kinds are in the order of their kinds. -/
theorem compare_of_kindRank (hk : a.kindRank ≠ b.kindRank) :
    a.compare b = Ord.compare a.kindRank b.kindRank := by
  cases a <;> cases b <;> first | rfl | exact absurd rfl hk

theorem compare_ne (hk : a.kindRank ≠ b.kindRank) : a.compare b ≠ .eq := by
  rwa [compare_of_kindRank hk, Ne, Nat.compare_eq_eq]

theorem compare_comm : a.compare b = .eq ↔ b.compare a = .eq := by
  by_cases hk : a.kindRank = b.kindRank
  · cases a with
    | null => cases b <;> first | rfl | cases hk
    | bool | int =>
      cases b with
      | bool | int => rw [compare_int rfl rfl, compare_int rfl rfl, eq_comm]
      | float => exact Binary.compareFloat_comm
      | null | text | blob => cases hk
    | float =>
      cases b with
      | bool | int | float => exact Binary.compareFloat_comm
      | null | text | blob => cases hk
    | text =>
      cases b with
      | text => rw [compare, compare, compareChars_eq_iff, compareChars_eq_iff, eq_comm]
      | _ => cases hk
    | blob =>
      cases b with
      | blob => rw [compare, compare, compareBytes_eq_iff, compareBytes_eq_iff, eq_comm]
      | _ => cases hk
  · exact iff_of_false (compare_ne hk) (compare_ne (Ne.symm hk))

theorem eq_least (hx : x.value = Binary.least) : x = .ofFloat Binary.least := by
  have hn : x.isNaN = false := by
    rw [Double.isNaN, hx]
    rfl
  rw [← hx, Double.ofFloat_value hn]

theorem value_inj (hx : x.isNaN = false) (hy : y.isNaN = false) : x.value = y.value ↔ x = y := by
  refine ⟨fun h => ?_, fun h => h ▸ rfl⟩
  rw [← Double.ofFloat_value hx, h, Double.ofFloat_value hy]

theorem compare_int_unframed (ha : a.int? = some i) (hx : framesAsInt x.value = false) :
    a.compare (float x) = .eq ↔ x = .ofFloat (floatOfInt i) := by
  have hi := (Binary.floatOfInt_defined i).1
  rw [compare_int_float ha, Binary.compareFloat_comm, Binary.compareFloat_unframed hx, hi]
  constructor
  · rintro (h | ⟨-, h⟩)
    · have hn : x.isNaN = false := by rw [Double.isNaN, h, hi]
      rw [← h, Double.ofFloat_value hn]
    · cases h
  · rintro rfl
    exact .inl (Double.value_ofFloat _)

/-! ## Where they agree -/

/-- The least integer is no truth value. -/
theorem eq_minValue (ha : a.int? = some Int64.minValue) : a = int Int64.minValue := by
  cases a with
  | int => exact congrArg int (Option.some.inj ha)
  | bool b => cases b <;> exact absurd ha (by decide)
  | null | float | text | blob => cases ha

/-- The float of an integer, where it is not framed as one, is in discord with the integer: it is
another number, or the least integer. -/
theorem discord_of_unframed (ha : a.int? = some i) (hx : framesAsInt x.value = false)
    (h : x = .ofFloat (floatOfInt i)) : Discord a (float x) := by
  subst h
  rw [Double.value_ofFloat] at hx
  by_cases hsame : compareInt i.toInt (floatOfInt i) = .eq
  · obtain ⟨rfl, hleast⟩ := (Binary.compareInt_unframed hx).1 hsame
    rw [eq_minValue ha, hleast]
    exact .misframed .least
  · exact .nearest ha (Double.value_ofFloat _).symm (by rwa [Double.value_ofFloat])

theorem agree_int_float (ha : a.int? = some i) (h : ¬ Discord a (float x)) :
    a.frame = (float x).frame ↔ a.compare (float x) = .eq := by
  have hheld := heldAs?_of_int? ha
  cases hx : framesAsInt x.value with
  | false =>
    rw [frame_held_unframed hheld hx, compare_int_unframed ha hx]
    exact iff_of_false (fun hw => h (.misframed (.word hheld hx hw)))
      fun hf => h (discord_of_unframed ha hx hf)
  | true =>
    rw [frame_held hheld (heldAs?_float hx), compare_int_float ha]
    constructor
    · rintro rfl
      exact Binary.compareFloat_toInt64 hx
    · intro hc
      obtain hf | ⟨hi, hz⟩ | ⟨hn, -⟩ := Binary.compareFloat_eq_iff.1 hc
      · by_contra hne
        exact h (.nearest ha hf fun hs => hne ((Binary.compareInt_framed hx).1 hs).symm)
      · rw [Binary.eq_zero_of_isZero hi, Binary.toInt64_of_isZero hz]
      · rw [(Binary.floatOfInt_defined i).1] at hn
        cases hn

theorem agree_float (h : ¬ Misframed (float x) (float y))
    (hn : x.isNaN = true → y.isNaN = true → x = y) :
    (float x).frame = (float y).frame ↔ compareFloat x.value y.value = .eq := by
  cases hx : framesAsInt x.value with
  | true =>
    cases hy : framesAsInt y.value with
    | true => rw [frame_held (heldAs?_float hx) (heldAs?_float hy), Binary.compareFloat_framed hx hy]
    | false =>
      rw [frame_held_unframed (heldAs?_float hx) hy]
      exact iff_of_false (fun hw => h (.word (heldAs?_float hx) hy hw))
        (Binary.compareFloat_framed_unframed hx hy)
  | false =>
    cases hy : framesAsInt y.value with
    | true =>
      rw [eq_comm, frame_held_unframed (heldAs?_float hy) hx, Binary.compareFloat_comm]
      exact iff_of_false (fun hw => h (.symm (.word (heldAs?_float hy) hx hw)))
        (Binary.compareFloat_framed_unframed hy hx)
    | false =>
      rw [frame_unframed hx hy, Binary.compareFloat_unframed hx]
      constructor
      · rintro rfl
        exact .inl rfl
      · rintro (hv | ⟨hnx, hny⟩)
        · have hsame : x.isNaN = y.isNaN := congrArg Float.isNaN hv
          cases hnx : x.isNaN with
          | false => exact (value_inj hnx (hsame ▸ hnx)).1 hv
          | true => exact hn hnx (hsame ▸ hnx)
        · exact hn hnx hny

/-- Two numbers that are misframed are told apart by one of their frames and their comparison alone. -/
theorem Misframed.not_iff (h : Misframed a b) : ¬ (a.frame = b.frame ↔ a.compare b = .eq) := by
  induction h with
  | @word a i x ha hx hword =>
    rw [frame_held_unframed ha hx, iff_true_left hword]
    cases a with
    | bool | int =>
      obtain rfl := Option.some.inj ha
      rw [compare_int_unframed rfl hx]
      rintro rfl
      rw [Double.value_ofFloat] at hx
      exact Binary.toBits_floatOfInt_ne hx hword
    | float y =>
      rw [heldAs?] at ha
      split at ha
      · exact Binary.compareFloat_framed_unframed ‹_› hx
      · cases ha
    | null | text | blob => cases ha
  | least =>
    rw [frame_held_unframed rfl rfl]
    decide
  | symm _ ih => rwa [eq_comm, compare_comm]

/-- **Where two numbers are in discord, one of their frames and their comparison tells them apart and
the other does not.** -/
theorem Discord.not_iff (h : Discord a b) : ¬ (a.frame = b.frame ↔ a.compare b = .eq) := by
  induction h with
  | misframed h => exact h.not_iff
  | @nearest a i x ha hx hne =>
    have hc : a.compare (float x) = .eq := by
      rw [compare_int_float ha, hx]
      exact Binary.compareFloat_eq_iff.2 (.inl rfl)
    rw [iff_true_right hc]
    cases hframed : framesAsInt x.value with
    | true =>
      rw [frame_held (heldAs?_of_int? ha) (heldAs?_float hframed)]
      exact fun h => hne ((Binary.compareInt_framed hframed).2 h.symm)
    | false =>
      have hn : x.isNaN = false := by rw [Double.isNaN, ← hx, (Binary.floatOfInt_defined i).1]
      rw [frame_held_unframed (heldAs?_of_int? ha) hframed, ← Double.ofFloat_value hn, ← hx]
      exact Binary.toBits_floatOfInt_ne (hx ▸ hframed)
  | @undefined x y hx hy hne =>
    have hframed {z : Double} (hz : z.isNaN = true) : framesAsInt z.value = false := by
      cases h : framesAsInt z.value with
      | false => rfl
      | true => exact hz.symm.trans (Binary.isNaN_of_framed h)
    rw [frame_unframed (hframed hx) (hframed hy), iff_false_left hne]
    exact not_not_intro (Binary.compareFloat_eq_iff.2 (.inr (.inr ⟨hx, hy⟩)))
  | symm _ ih => rwa [eq_comm, compare_comm]

/-- **Frames and comparisons agree on all cells but the numbers in discord.** -/
theorem frame_eq_iff_compare (ha : a.isSized = true) (hb : b.isSized = true) (hna : a.isNull = false)
    (hnb : b.isNull = false) : (a.frame = b.frame ↔ a.compare b = .eq) ↔ ¬ Discord a b := by
  refine ⟨fun h hd => hd.not_iff h, fun h => ?_⟩
  by_cases hk : a.kindRank = b.kindRank
  swap
  · exact iff_of_false (frame_ne ha hb hk) (compare_ne hk)
  cases a with
  | null => cases hna
  | bool | int =>
    cases b with
    | null => cases hnb
    | bool | int => rw [frame_held rfl rfl, compare_int rfl rfl]
    | float => exact agree_int_float rfl h
    | text | blob => cases hk
  | float =>
    cases b with
    | null => cases hnb
    | bool | int =>
      rw [eq_comm, compare_comm]
      exact agree_int_float rfl fun hd => h hd.symm
    | @float y =>
      refine agree_float (fun hm => h (.misframed hm)) fun hx hy => ?_
      by_contra hne
      exact h (.undefined hx hy hne)
    | text | blob => cases hk
  | text =>
    cases b with
    | text => rw [frame_text ha hb, compare, compareChars_eq_iff, String.toList_inj]
    | _ => cases hk
  | blob =>
    cases b with
    | blob => rw [frame_blob ha hb, compare, compareBytes_eq_iff]
    | _ => cases hk

end LazyQuery.Scalar
