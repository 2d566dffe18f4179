import LazyQuery.Memory.Budget
import LazyQuery.Proofs.Outcome
import Mathlib.Data.Nat.Basic

/-!
# Arithmetic of the budget

The count of a budget as a number, as long as it does not leave 64 bits. A reservation of no more
than is available is always granted and counts exactly; a guard that is resized counts for its new
size, whether the reservation for it was granted or forced; what is released is no longer counted.

The peak never decreases, and it is reached by whatever is counted.
-/

set_option autoImplicit false

namespace LazyQuery

open scoped Numbers

theorem toNat_lt (a : UInt64) : a.toNat < 2 ^ 64 := a.toNat_lt

theorem toNat_saturatingAdd (a b : UInt64) :
    (saturatingAdd a b).toNat = min (a.toNat + b.toNat) maxWord := by
  rw [saturatingAdd, saturated, UInt64.toNat_ofNat']
  exact Nat.mod_eq_of_lt (Nat.lt_of_le_of_lt (Nat.min_le_right _ _) (by decide))

theorem toNat_saturatingSub (a b : UInt64) : (saturatingSub a b).toNat = a.toNat - b.toNat := by
  rw [saturatingSub]
  split
  · rename_i h
    exact UInt64.toNat_sub_of_le _ _ h
  · rename_i h
    rw [UInt64.le_iff_toNat_le] at h
    simp
    omega

theorem toNat_add_of_lt {a b : UInt64} (h : a.toNat + b.toNat < 2 ^ 64) :
    (a + b).toNat = a.toNat + b.toNat := by
  rw [UInt64.toNat_add, Nat.mod_eq_of_lt h]

namespace Budget

variable {b b' : Budget} {g g' : Guard} {bytes : UInt64} {tag : String}

theorem toNat_available (b : Budget) : b.available.toNat = b.capacity.toNat - b.used.toNat :=
  toNat_saturatingSub _ _

/-- What is free can be reserved, and is counted then. -/
theorem acquire_of_available (h : bytes ≤ b.available) (tag : String) :
    ∃ b', b.acquire bytes tag = .ok (⟨bytes, tag⟩, b') ∧
      b'.used.toNat = b.used.toNat + bytes.toNat := by
  rw [acquire, tryAcquire]
  by_cases hz : bytes = 0
  · subst hz
    exact ⟨b, rfl, rfl⟩
  · rw [if_neg hz]
    have hn : (saturatingAdd b.used bytes).toNat = b.used.toNat + bytes.toNat ∧
        ¬b.capacity < saturatingAdd b.used bytes := by
      rw [UInt64.le_iff_toNat_le, toNat_available] at h
      have hpos : 0 < bytes.toNat := by
        refine Nat.pos_of_ne_zero fun h0 => hz ?_
        exact UInt64.toNat_inj.1 h0
      have hcap := toNat_lt b.capacity
      rw [UInt64.lt_iff_toNat_lt, toNat_saturatingAdd, maxWord]
      omega
    rw [reserve?, if_neg hn.2]
    exact ⟨_, rfl, hn.1⟩

theorem acquire_guard (h : b.acquire bytes tag = .ok (g, b')) (ha : bytes ≤ b.available) :
    g.bytes = bytes ∧ b'.used.toNat = b.used.toNat + bytes.toNat := by
  obtain ⟨b₀, h₀, hu⟩ := acquire_of_available ha tag
  rw [h₀, Except.ok.injEq, Prod.mk.injEq] at h
  obtain ⟨rfl, rfl⟩ := h
  exact ⟨rfl, hu⟩

/-- A result that is in memory already is counted, if the count stays within 64 bits. -/
theorem reserve_used (h : b.used.toNat + bytes.toNat < 2 ^ 64) :
    (b.reserve bytes).used.toNat = b.used.toNat + bytes.toNat :=
  toNat_add_of_lt h

theorem giveBack_used {n : Nat} (h : b.used.toNat = n + bytes.toNat) :
    (b.giveBack bytes).used.toNat = n := by
  have hle : bytes ≤ b.used := by
    rw [UInt64.le_iff_toNat_le, h]
    exact Nat.le_add_left _ _
  rw [giveBack, UInt64.toNat_sub_of_le _ _ hle, h, Nat.add_sub_cancel]

theorem release_used {n : Nat} (h : b.used.toNat = n + g.bytes.toNat) :
    (b.release g).used.toNat = n :=
  giveBack_used h

theorem resizeUnchecked_bytes : (b.resizeUnchecked g bytes).1.bytes = bytes := by
  unfold resizeUnchecked tryResize
  split
  · rename_i h
    split at h
    · cases h
      rename_i h
      exact h.symm
    · split at h
      · cases h
        rfl
      · cases hr : b.reserve? (bytes - g.bytes) <;> rw [hr] at h <;> cases h
        rfl
  · rfl

/-- A guard that is resized counts for its new size, if the count stays within 64 bits. -/
theorem resizeUnchecked_used {n : Nat} (h : b.used.toNat = n + g.bytes.toNat)
    (hb : n + bytes.toNat < 2 ^ 64) :
    (b.resizeUnchecked g bytes).2.used.toNat = n + bytes.toNat := by
  rw [resizeUnchecked, tryResize]
  by_cases he : bytes = g.bytes
  · rw [if_pos he, h, he]
  · rw [if_neg he]
    by_cases hlt : bytes < g.bytes
    · rw [if_pos hlt]
      refine giveBack_used ?_
      rw [UInt64.lt_iff_toNat_lt] at hlt
      rw [UInt64.toNat_sub_of_le _ _ (UInt64.le_iff_toNat_le.2 (Nat.le_of_lt hlt)), h]
      omega
    · rw [if_neg hlt]
      have hle : g.bytes ≤ bytes := UInt64.not_lt.1 hlt
      have hsub := UInt64.toNat_sub_of_le _ _ hle
      rw [UInt64.le_iff_toNat_le] at hle
      -- Granted or forced, the reservation is for the same bytes.
      have hsum : b.used.toNat + (bytes - g.bytes).toNat = n + bytes.toNat := by omega
      cases hr : b.reserve? (bytes - g.bytes) with
      | none =>
        rw [← hsum]
        exact reserve_used (hsum ▸ hb)
      | some b' =>
        rw [reserve?] at hr
        split at hr
        · cases hr
        · cases hr
          have := toNat_saturatingAdd b.used (bytes - g.bytes)
          rw [hsum, maxWord, Nat.min_eq_left (by omega)] at this
          exact this

/-- A guard for bytes that are free shrinks when it is resized to fewer, and what is in use stays within the
capacity, unless it was beyond it before. -/
theorem resizeUnchecked_shrinks {b'' : Budget} {estimated : UInt64} (ha : estimated ≤ b.available)
    (hb : b.acquire estimated tag = .ok (g, b')) (hle : bytes ≤ estimated)
    (hr : b'.resizeUnchecked g bytes = (g', b'')) :
    g'.bytes ≤ g.bytes ∧ b''.used ≤ b'.used ∧
      b''.used.toNat ≤ max b.capacity.toNat b.used.toNat := by
  obtain ⟨hg, hacquired⟩ := acquire_guard hb ha
  have hg' : (b'.resizeUnchecked g bytes).1.bytes = bytes := resizeUnchecked_bytes
  rw [UInt64.le_iff_toNat_le] at hle
  rw [UInt64.le_iff_toNat_le, toNat_available] at ha
  have hlt := b'.used.toNat_lt
  have hused : (b'.resizeUnchecked g bytes).2.used.toNat = b.used.toNat + bytes.toNat :=
    resizeUnchecked_used (hg ▸ hacquired) (by omega)
  rw [hr] at hg' hused
  rw [hg', hg, UInt64.le_iff_toNat_le, UInt64.le_iff_toNat_le, hused, hacquired]
  omega

/-! ## The peak -/

/-- The capacity is the same, and the peak is no lower. -/
def Raises (b b' : Budget) : Prop := b'.capacity = b.capacity ∧ b.peak ≤ b'.peak

theorem Raises.refl (b : Budget) : b.Raises b := ⟨rfl, UInt64.le_refl _⟩

theorem Raises.trans {b'' : Budget} (h : b.Raises b') (h' : b'.Raises b'') : b.Raises b'' :=
  ⟨h'.1.trans h.1, UInt64.le_trans h.2 h'.2⟩

theorem peak_withUsed (b : Budget) (u : UInt64) :
    b.peak ≤ (b.withUsed u).peak ∧ u ≤ (b.withUsed u).peak := by
  change b.peak ≤ max b.peak u ∧ u ≤ max b.peak u
  rw [show max b.peak u = if b.peak ≤ u then u else b.peak from rfl]
  split
  · rename_i h
    exact ⟨h, UInt64.le_refl _⟩
  · rename_i h
    exact ⟨UInt64.le_refl _, UInt64.le_of_lt (UInt64.not_le.1 h)⟩

theorem raises_withUsed (b : Budget) (u : UInt64) : b.Raises (b.withUsed u) :=
  ⟨rfl, (peak_withUsed b u).1⟩

theorem reserve?_eq_some (h : b.reserve? bytes = some b') :
    b' = b.withUsed (saturatingAdd b.used bytes) := by
  rw [reserve?] at h
  split at h
  · cases h
  · exact (Option.some.inj h).symm

/-- What the acquisition of a guard does: nothing, or a reservation. -/
theorem acquire_cases (h : b.acquire bytes tag = .ok (g, b')) :
    b' = b ∨ ∃ u, b' = b.withUsed u := by
  rw [acquire, tryAcquire] at h
  split at h
  · rename_i r hr
    split at hr
    · cases hr
      cases h
      exact .inl rfl
    · rw [Option.map_eq_some_iff] at hr
      obtain ⟨b₀, hb, rfl⟩ := hr
      cases h
      exact .inr ⟨_, reserve?_eq_some hb⟩
  · cases h

/-- What the resizing of a guard does: nothing, a reservation, or giving back some of its bytes. -/
theorem resizeUnchecked_cases (b : Budget) (g : Guard) (bytes : UInt64) :
    (b.resizeUnchecked g bytes).2 = b ∨ (∃ u, (b.resizeUnchecked g bytes).2 = b.withUsed u) ∨
      bytes < g.bytes ∧ (b.resizeUnchecked g bytes).2 = b.giveBack (g.bytes - bytes) := by
  rw [resizeUnchecked, tryResize]
  by_cases he : bytes = g.bytes
  · rw [if_pos he]
    exact .inl rfl
  · rw [if_neg he]
    by_cases hlt : bytes < g.bytes
    · rw [if_pos hlt]
      exact .inr (.inr ⟨hlt, rfl⟩)
    · rw [if_neg hlt]
      cases hr : b.reserve? (bytes - g.bytes) with
      | none => exact .inr (.inl ⟨_, rfl⟩)
      | some b' => exact .inr (.inl ⟨_, reserve?_eq_some hr⟩)

theorem raises_acquire (h : b.acquire bytes tag = .ok (g, b')) : b.Raises b' := by
  rcases acquire_cases h with rfl | ⟨u, rfl⟩
  · exact .refl _
  · exact raises_withUsed _ _

theorem raises_resizeUnchecked (b : Budget) (g : Guard) (bytes : UInt64) :
    b.Raises (b.resizeUnchecked g bytes).2 := by
  rcases resizeUnchecked_cases b g bytes with h | ⟨u, h⟩ | ⟨-, h⟩ <;> rw [h]
  · exact .refl _
  · exact raises_withUsed _ _
  · exact .refl _

theorem withUsed_le_peak (b : Budget) (u : UInt64) : (b.withUsed u).used ≤ (b.withUsed u).peak :=
  (peak_withUsed b u).2

theorem giveBack_le_peak (hb : b.used ≤ b.peak) (h : bytes ≤ b.used) :
    (b.giveBack bytes).used ≤ (b.giveBack bytes).peak := by
  refine UInt64.le_trans (UInt64.le_iff_toNat_le.2 ?_) hb
  rw [giveBack, UInt64.toNat_sub_of_le _ _ h]
  exact Nat.sub_le _ _

theorem acquire_le_peak (hb : b.used ≤ b.peak) (h : b.acquire bytes tag = .ok (g, b')) :
    b'.used ≤ b'.peak := by
  rcases acquire_cases h with rfl | ⟨u, rfl⟩
  · exact hb
  · exact withUsed_le_peak _ _

theorem resizeUnchecked_le_peak (hb : b.used ≤ b.peak) (hg : g.bytes ≤ b.used) (bytes : UInt64) :
    (b.resizeUnchecked g bytes).2.used ≤ (b.resizeUnchecked g bytes).2.peak := by
  rcases resizeUnchecked_cases b g bytes with h | ⟨u, h⟩ | ⟨hlt, h⟩ <;> rw [h]
  · exact hb
  · exact withUsed_le_peak _ _
  · refine giveBack_le_peak hb (UInt64.le_trans (UInt64.le_iff_toNat_le.2 ?_) hg)
    rw [UInt64.toNat_sub_of_le _ _ (UInt64.le_of_lt hlt)]
    exact Nat.sub_le _ _

end Budget
end LazyQuery
