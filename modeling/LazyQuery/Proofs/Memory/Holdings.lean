import LazyQuery.Proofs.Memory.Budget
import Mathlib.Data.List.Infix
import Mathlib.Data.List.Perm.Basic

/-!
# Guards that are held

A budget is used through any number of guards. They are acquired, resized and dropped in any order, with and
without regard to the capacity (`Use`). The guards that are held after some uses are `Holdings`.

* `Budget.Recounts` is all that a use does to a budget: what was counted of a guard before is counted at
  another size. `Holdings.perform_cases` says this of every use, and when it is refused.
* `Holdings.counts_afterAll` says what the budget counts after any run of uses, as long as the bytes of all
  guards fit into a word.
* Without that proviso a checked use can be granted too much, since the count stops at the largest word
  (`Holdings.within_afterAll_iff`).
-/

set_option autoImplicit false

namespace LazyQuery

open scoped Numbers

/-! ## What a use does to a budget -/

namespace Budget

variable {b b' : Budget} {g : Guard} {bytes old new : UInt64} {tag : String} {n : Nat}

/-- The capacity allows so many more bytes, where the count stops at the largest word. -/
def Admits (b : Budget) (n : Nat) : Prop := n = 0 ∨ min (b.used.toNat + n) maxWord ≤ b.capacity.toNat

/-- What was counted as one number of bytes is counted as another. -/
def Recounts (b : Budget) (old new : UInt64) (b' : Budget) : Prop :=
  old = new ∧ b' = b ∨
  (old ≤ new ∧ ∃ u, b' = b.withUsed u ∧ (b.used.toNat + (new.toNat - old.toNat) < 2 ^ 64 →
    u.toNat = b.used.toNat + (new.toNat - old.toNat))) ∨
  new < old ∧ b' = b.giveBack (old - new)

theorem toNat_peak_withUsed (b : Budget) (u : UInt64) :
    (b.withUsed u).peak.toNat = max b.peak.toNat u.toNat := by
  change (max b.peak u).toNat = _
  rw [show max b.peak u = if b.peak ≤ u then u else b.peak from rfl]
  split
  · rename_i h
    rw [UInt64.le_iff_toNat_le] at h
    omega
  · rename_i h
    rw [UInt64.le_iff_toNat_le] at h
    omega

theorem Recounts.capacity (h : b.Recounts old new b') : b'.capacity = b.capacity := by
  obtain ⟨-, rfl⟩ | ⟨-, u, rfl, -⟩ | ⟨-, rfl⟩ := h <;> rfl

/-- A count that contains the old number of bytes contains the new one afterwards. -/
theorem Recounts.used (h : b.Recounts old new b') (hb : b.used.toNat = n + old.toNat)
    (hn : n + new.toNat < 2 ^ 64) : b'.used.toNat = n + new.toNat := by
  obtain ⟨rfl, rfl⟩ | ⟨hle, u, rfl, hu⟩ | ⟨hlt, rfl⟩ := h
  · exact hb
  · rw [UInt64.le_iff_toNat_le] at hle
    rw [show (b.withUsed u).used = u from rfl, hu (by omega)]
    omega
  · have hsub := UInt64.toNat_sub_of_le _ _ (UInt64.le_of_lt hlt)
    rw [UInt64.lt_iff_toNat_lt] at hlt
    exact giveBack_used (by omega)

/-- The peak is raised to the new count. -/
theorem Recounts.peak (h : b.Recounts old new b') (hb : b.used ≤ b.peak) (ho : old ≤ b.used) :
    b'.peak.toNat = max b.peak.toNat b'.used.toNat := by
  rw [UInt64.le_iff_toNat_le] at hb
  obtain ⟨-, rfl⟩ | ⟨-, u, rfl, -⟩ | ⟨hlt, rfl⟩ := h
  · omega
  · exact toNat_peak_withUsed b u
  · have hsub := UInt64.toNat_sub_of_le _ _ (UInt64.le_of_lt hlt)
    have hle : old - new ≤ b.used := by
      rw [UInt64.le_iff_toNat_le] at ho ⊢
      omega
    have hused := UInt64.toNat_sub_of_le _ _ hle
    change b.peak.toNat = max b.peak.toNat (b.used - (old - new)).toNat
    omega

theorem recounts_release (b : Budget) (g : Guard) : b.Recounts g.bytes 0 (b.release g) := by
  by_cases h : g.bytes = 0
  · refine .inl ⟨h, ?_⟩
    simp [release, giveBack, h]
  · refine .inr (.inr ⟨UInt64.pos_iff_ne_zero.2 h, ?_⟩)
    rw [release, UInt64.sub_zero]

theorem recounts_reserve (h : old ≤ new) : b.Recounts old new (b.reserve (new - old)) := by
  refine .inr (.inl ⟨h, _, rfl, fun hlt => ?_⟩)
  rw [← UInt64.toNat_sub_of_le _ _ h] at hlt ⊢
  exact toNat_add_of_lt hlt

/-- What a checked reservation comes to. -/
theorem reserve?_cases (b : Budget) (h : old < new) :
    (b.reserve? (new - old) = none ∧ ¬b.Admits (new.toNat - old.toNat)) ∨
      ∃ b', b.reserve? (new - old) = some b' ∧ b.Admits (new.toNat - old.toNat) ∧ b.Recounts old new b' := by
  have hsub := UInt64.toNat_sub_of_le _ _ (UInt64.le_of_lt h)
  have hsum := toNat_saturatingAdd b.used (new - old)
  rw [hsub] at hsum
  rw [reserve?]
  split
  · rename_i hfull
    rw [UInt64.lt_iff_toNat_lt] at h hfull
    refine .inl ⟨rfl, ?_⟩
    rintro (hzero | hfits)
    · omega
    · omega
  · rename_i hfits
    rw [UInt64.not_lt, UInt64.le_iff_toNat_le, hsum] at hfits
    refine .inr ⟨_, rfl, .inr hfits, .inr (.inl ⟨UInt64.le_of_lt h, _, rfl, fun hlt => ?_⟩)⟩
    rw [hsum, maxWord]
    omega

theorem tryAcquire_cases (b : Budget) (bytes : UInt64) (tag : String) :
    (b.tryAcquire bytes tag = none ∧ ¬b.Admits bytes.toNat) ∨
      ∃ b', b.tryAcquire bytes tag = some (⟨bytes, tag⟩, b') ∧ b.Admits bytes.toNat ∧
        b.Recounts 0 bytes b' := by
  rw [tryAcquire]
  by_cases hz : bytes = 0
  · subst hz
    exact .inr ⟨b, rfl, .inl rfl, .inl ⟨rfl, rfl⟩⟩
  · rw [if_neg hz]
    obtain ⟨hnone, hfull⟩ | ⟨b', hsome, hfits, hcount⟩ := b.reserve?_cases (UInt64.pos_iff_ne_zero.2 hz)
    · rw [UInt64.sub_zero] at hnone
      exact .inl ⟨by rw [hnone, Option.map_none], hfull⟩
    · rw [UInt64.sub_zero] at hsome
      exact .inr ⟨b', by rw [hsome, Option.map_some], hfits, hcount⟩

theorem toOption_acquire (b : Budget) (bytes : UInt64) (tag : String) :
    (b.acquire bytes tag).toOption = b.tryAcquire bytes tag := by
  rw [acquire]
  cases b.tryAcquire bytes tag <;> rfl

theorem tryResize_cases (b : Budget) (g : Guard) (bytes : UInt64) :
    (b.tryResize g bytes = (false, g, b) ∧ g.bytes < bytes ∧
      ¬b.Admits (bytes.toNat - g.bytes.toNat)) ∨
      ∃ b', b.tryResize g bytes = (true, { g with bytes := bytes }, b') ∧
        b.Admits (bytes.toNat - g.bytes.toNat) ∧ b.Recounts g.bytes bytes b' := by
  rw [tryResize]
  by_cases he : bytes = g.bytes
  · subst he
    rw [if_pos rfl]
    exact .inr ⟨b, rfl, .inl (Nat.sub_self _), .inl ⟨rfl, rfl⟩⟩
  rw [if_neg he]
  by_cases hlt : bytes < g.bytes
  · rw [if_pos hlt]
    refine .inr ⟨_, rfl, .inl ?_, .inr (.inr ⟨hlt, rfl⟩)⟩
    rw [UInt64.lt_iff_toNat_lt] at hlt
    omega
  rw [if_neg hlt]
  have hgrows : g.bytes < bytes := by
    rw [UInt64.lt_iff_toNat_lt] at hlt ⊢
    rw [← UInt64.toNat_inj] at he
    omega
  obtain ⟨hnone, hfull⟩ | ⟨b', hsome, hfits, hcount⟩ := b.reserve?_cases hgrows
  · rw [hnone]
    exact .inl ⟨rfl, hgrows, hfull⟩
  · rw [hsome]
    exact .inr ⟨b', rfl, hfits, hcount⟩

/-- A guard gets its new size in any case. -/
theorem resizeUnchecked_eq (b : Budget) (g : Guard) (bytes : UInt64) :
    ∃ b', b.resizeUnchecked g bytes = ({ g with bytes := bytes }, b') ∧ b.Recounts g.bytes bytes b' := by
  rw [resizeUnchecked]
  obtain ⟨h, hgrows, -⟩ | ⟨b', h, -, hcount⟩ := b.tryResize_cases g bytes
  · rw [h]
    exact ⟨_, rfl, recounts_reserve (UInt64.le_of_lt hgrows)⟩
  · rw [h]
    exact ⟨b', rfl, hcount⟩

end Budget

/-! ## Uses of a budget -/

/-- One use of a budget. A guard is named by its place among those that are held. -/
inductive Use
  | acquire (bytes : UInt64) (tag : String)
  | tryAcquire (bytes : UInt64) (tag : String)
  | acquireUnchecked (bytes : UInt64) (tag : String)
  | tryResize (i : Nat) (bytes : UInt64)
  | resizeUnchecked (i : Nat) (bytes : UInt64)
  | drop (i : Nat)
  deriving DecidableEq

namespace Use

/-- Does the use mind the capacity? -/
def isChecked : Use → Bool
  | acquireUnchecked _ _ | resizeUnchecked _ _ => false
  | acquire _ _ | tryAcquire _ _ | tryResize _ _ | drop _ => true

/-- The guards once a use is granted: one more, one of another size, or one less. -/
def applied (guards : List Guard) : Use → List Guard
  | acquire bytes tag | tryAcquire bytes tag | acquireUnchecked bytes tag => guards ++ [⟨bytes, tag⟩]
  | tryResize i bytes | resizeUnchecked i bytes => guards.modify i fun g => { g with bytes := bytes }
  | drop i => guards.eraseIdx i

end Use

/-- A budget and the guards that are held, in the order in which they were acquired. -/
structure Holdings where
  budget : Budget
  guards : List Guard
  deriving DecidableEq

namespace Holdings

/-- Nothing is held yet. -/
def ofCapacity (capacity : UInt64) : Holdings := ⟨.ofCapacity capacity, []⟩

/-- The bytes of guards, however large their sum. -/
def totalBytes (guards : List Guard) : Nat := (guards.map fun g => g.bytes.toNat).sum

/-- The bytes of all guards that are held. -/
def total (h : Holdings) : Nat := totalBytes h.guards

/-- Is the guard held that the use is about? -/
def holds (h : Holdings) : Use → Bool
  | .acquire _ _ | .tryAcquire _ _ | .acquireUnchecked _ _ => true
  | .tryResize i _ | .resizeUnchecked i _ | .drop i => (h.guards[i]?).isSome

/-- The bytes that a use asks for on top of those that its guard has. -/
def demand (h : Holdings) : Use → Nat
  | .acquire bytes _ | .tryAcquire bytes _ | .acquireUnchecked bytes _ => bytes.toNat
  | .tryResize i bytes | .resizeUnchecked i bytes =>
    bytes.toNat - (h.guards[i]?).elim 0 fun g => g.bytes.toNat
  | .drop _ => 0

/-- A guard that is acquired is held from then on. -/
def receive (h : Holdings) : Option (Guard × Budget) → Bool × Holdings
  | some (g, b) => (true, ⟨b, h.guards ++ [g]⟩)
  | none => (false, h)

/-- A guard that is held is replaced by what is made of it. -/
def replace (h : Holdings) (i : Nat) (make : Guard → Bool × Guard × Budget) : Bool × Holdings :=
  match h.guards[i]? with
  | some g =>
    let (granted, g', b) := make g
    (granted, ⟨b, h.guards.set i g'⟩)
  | none => (false, h)

/-- Whether a use is granted, and what is held afterwards. A use of a guard that is not held is none. -/
def perform (h : Holdings) : Use → Bool × Holdings
  | .acquire bytes tag => h.receive (h.budget.acquire bytes tag).toOption
  | .tryAcquire bytes tag => h.receive (h.budget.tryAcquire bytes tag)
  | .acquireUnchecked bytes tag => h.receive (some (h.budget.acquireUnchecked bytes tag))
  | .tryResize i bytes => h.replace i fun g => h.budget.tryResize g bytes
  | .resizeUnchecked i bytes => h.replace i fun g => (true, h.budget.resizeUnchecked g bytes)
  | .drop i =>
    match h.guards[i]? with
    | some g => (true, ⟨h.budget.release g, h.guards.eraseIdx i⟩)
    | none => (false, h)

/-- What is held after some uses. -/
def afterAll (h : Holdings) (uses : List Use) : Holdings := uses.foldl (fun h u => (h.perform u).2) h

/-- What is held after all guards are dropped. -/
def dropAll (h : Holdings) : Holdings := h.afterAll (List.replicate h.guards.length (.drop 0))

variable {h : Holdings} {u : Use} {guards : List Guard} {i : Nat} {g g' : Guard}

/-! ## Sums of guards -/

theorem totalBytes_append (guards : List Guard) (g : Guard) :
    totalBytes (guards ++ [g]) = totalBytes guards + g.bytes.toNat := by
  simp [totalBytes]

theorem totalBytes_eraseIdx (hg : guards[i]? = some g) :
    totalBytes guards = totalBytes (guards.eraseIdx i) + g.bytes.toNat := by
  obtain ⟨hi, rfl⟩ := List.getElem?_eq_some_iff.1 hg
  have hperm := (List.getElem_cons_eraseIdx_perm hi).map fun g => g.bytes.toNat
  have hsum := hperm.sum_nat
  rw [List.map_cons, List.sum_cons] at hsum
  simp only [totalBytes]
  omega

theorem totalBytes_set (hi : i < guards.length) (g : Guard) :
    totalBytes (guards.set i g) = totalBytes (guards.eraseIdx i) + g.bytes.toNat := by
  have hperm := (List.set_perm_cons_eraseIdx hi g).map fun g => g.bytes.toNat
  have hsum := hperm.sum_nat
  rw [List.map_cons, List.sum_cons] at hsum
  simp only [totalBytes]
  omega

/-! ## What a use does -/

/-- The use counts the bytes of one guard anew and leaves those of the others alone. -/
def Counts (h : Holdings) (u : Use) (b : Budget) : Prop :=
  ∃ rest old new, h.total = rest + old.toNat ∧ totalBytes (u.applied h.guards) = rest + new.toNat ∧
    h.demand u = new.toNat - old.toNat ∧ h.budget.Recounts old new b

theorem counts_append {b : Budget} {bytes : UInt64} {tag : String}
    (hu : u.applied h.guards = h.guards ++ [⟨bytes, tag⟩]) (hd : h.demand u = bytes.toNat)
    (hb : h.budget.Recounts 0 bytes b) : h.Counts u b :=
  ⟨h.total, 0, bytes, by simp, by rw [hu, totalBytes_append]; rfl, by simpa using hd, hb⟩

theorem counts_modify {b : Budget} {bytes : UInt64} (hg : h.guards[i]? = some g)
    (hu : u.applied h.guards = h.guards.set i { g with bytes := bytes })
    (hd : h.demand u = bytes.toNat - g.bytes.toNat) (hb : h.budget.Recounts g.bytes bytes b) :
    h.Counts u b := by
  obtain ⟨hi, -⟩ := List.getElem?_eq_some_iff.1 hg
  exact ⟨_, g.bytes, bytes, totalBytes_eraseIdx hg, by rw [hu, totalBytes_set hi], hd, hb⟩

theorem modify_eq_set (hg : guards[i]? = some g) (f : Guard → Guard) :
    guards.modify i f = guards.set i (f g) := by
  rw [List.modify_eq_set_getElem?, hg]
  rfl

/-- The use is refused and changes nothing: its guard is not held, or it minds the capacity, which does not
allow it. -/
def Refuses (h : Holdings) (u : Use) : Prop :=
  h.perform u = (false, h) ∧ (h.holds u = false ∨ u.isChecked = true ∧ ¬h.budget.Admits (h.demand u))

/-- The use is granted, and leads to the budget: its guard is held, and the capacity allows it if it minds
it. -/
structure Grants (h : Holdings) (u : Use) (b : Budget) : Prop where
  perform : h.perform u = (true, ⟨b, u.applied h.guards⟩)
  holds : h.holds u = true
  admits : u.isChecked = true → h.budget.Admits (h.demand u)
  counts : h.Counts u b

theorem acquire_cases {bytes : UInt64} {tag : String} (hu : u.applied h.guards = h.guards ++ [⟨bytes, tag⟩])
    (hd : h.demand u = bytes.toNat) (hh : h.holds u = true) (hc : u.isChecked = true)
    (hp : h.perform u = h.receive (h.budget.tryAcquire bytes tag)) : h.Refuses u ∨ ∃ b, h.Grants u b := by
  obtain ⟨hnone, hfull⟩ | ⟨b, hsome, hfits, hcount⟩ := h.budget.tryAcquire_cases bytes tag
  · exact .inl ⟨by rw [hp, hnone]; rfl, .inr ⟨hc, hd ▸ hfull⟩⟩
  · exact .inr ⟨b, by rw [hp, hsome, hu]; rfl, hh, fun _ => hd ▸ hfits, counts_append hu hd hcount⟩

/-- **All that a use does**: it is refused and changes nothing, or it counts one guard anew. -/
theorem perform_cases (h : Holdings) (u : Use) : h.Refuses u ∨ ∃ b, h.Grants u b := by
  cases u with
  | acquire bytes tag =>
    exact acquire_cases rfl rfl rfl rfl (congrArg h.receive (h.budget.toOption_acquire bytes tag))
  | tryAcquire bytes tag => exact acquire_cases rfl rfl rfl rfl rfl
  | acquireUnchecked bytes tag =>
    have hcount : h.budget.Recounts 0 bytes (h.budget.reserve bytes) := by
      simpa using Budget.recounts_reserve (b := h.budget) (UInt64.zero_le (a := bytes))
    exact .inr ⟨_, rfl, rfl, nofun, counts_append rfl rfl hcount⟩
  | tryResize i bytes =>
    cases hg : h.guards[i]? with
    | none => exact .inl ⟨by simp [perform, replace, hg], .inl (by simp [holds, hg])⟩
    | some g =>
      have hd : h.demand (.tryResize i bytes) = bytes.toNat - g.bytes.toNat := by simp [demand, hg]
      obtain ⟨hr, -, hfull⟩ | ⟨b, hr, hfits, hcount⟩ := h.budget.tryResize_cases g bytes
      · refine .inl ⟨?_, .inr ⟨rfl, hd ▸ hfull⟩⟩
        have hset : h.guards.set i g = h.guards := by
          obtain ⟨hi, rfl⟩ := List.getElem?_eq_some_iff.1 hg
          exact List.set_getElem_self hi
        simp [perform, replace, hg, hr, hset]
      · have hu := modify_eq_set hg fun g => { g with bytes := bytes }
        exact .inr ⟨b, by simp [perform, replace, hg, hr, Use.applied, hu], by simp [holds, hg],
          fun _ => hd ▸ hfits, counts_modify hg hu hd hcount⟩
  | resizeUnchecked i bytes =>
    cases hg : h.guards[i]? with
    | none => exact .inl ⟨by simp [perform, replace, hg], .inl (by simp [holds, hg])⟩
    | some g =>
      have hd : h.demand (.resizeUnchecked i bytes) = bytes.toNat - g.bytes.toNat := by simp [demand, hg]
      obtain ⟨b, hr, hcount⟩ := h.budget.resizeUnchecked_eq g bytes
      have hu := modify_eq_set hg fun g => { g with bytes := bytes }
      exact .inr ⟨b, by simp [perform, replace, hg, hr, Use.applied, hu], by simp [holds, hg], nofun,
        counts_modify hg hu hd hcount⟩
  | drop i =>
    cases hg : h.guards[i]? with
    | none => exact .inl ⟨by simp [perform, hg], .inl (by simp [holds, hg])⟩
    | some g =>
      refine .inr ⟨h.budget.release g, by simp [perform, hg, Use.applied], by simp [holds, hg],
        fun _ => .inl rfl, _, g.bytes, 0, totalBytes_eraseIdx hg, rfl, ?_, h.budget.recounts_release g⟩
      simp [demand]

theorem Grants.granted {b : Budget} (hg : h.Grants u b) : (h.perform u).2 = ⟨b, u.applied h.guards⟩ :=
  congrArg Prod.snd hg.perform

theorem Grants.total_le {b : Budget} (hg : h.Grants u b) :
    (h.perform u).2.total ≤ h.total + h.demand u := by
  obtain ⟨rest, old, new, ht, ha, hd, -⟩ := hg.counts
  rw [hg.granted, total, ha, ht, hd]
  omega

/-- What a use asks for comes on top. -/
theorem Grants.total_eq {b : Budget} (hg : h.Grants u b) (hd : h.demand u ≠ 0) :
    (h.perform u).2.total = h.total + h.demand u := by
  obtain ⟨rest, old, new, ht, ha, hdemand, -⟩ := hg.counts
  rw [hg.granted, total, ha, ht, hdemand]
  omega

/-! ## Runs of uses -/

theorem afterAll_concat (h : Holdings) (uses : List Use) (u : Use) :
    h.afterAll (uses ++ [u]) = ((h.afterAll uses).perform u).2 := by
  simp [afterAll]

theorem capacity_perform (h : Holdings) (u : Use) :
    (h.perform u).2.budget.capacity = h.budget.capacity := by
  obtain ⟨hp, -⟩ | ⟨b, hg⟩ := h.perform_cases u
  · rw [hp]
  · obtain ⟨_, _, _, -, -, -, hcount⟩ := hg.counts
    rw [hg.granted]
    exact hcount.capacity

theorem capacity_afterAll (h : Holdings) (uses : List Use) :
    (h.afterAll uses).budget.capacity = h.budget.capacity := by
  induction uses using List.reverseRecOn with
  | nil => rfl
  | append_singleton uses u ih => rw [afterAll_concat, capacity_perform, ih]

/-- The budget counts the bytes of all guards that are held. -/
structure Exact (h : Holdings) : Prop where
  used : h.budget.used.toNat = h.total
  peak : h.budget.used ≤ h.budget.peak

theorem exact_ofCapacity (capacity : UInt64) : (ofCapacity capacity).Exact := ⟨rfl, UInt64.le_refl _⟩

/-- **A use keeps the count exact** as long as it fits into a word, and raises the peak to it. -/
theorem Exact.perform (he : h.Exact) (ht : (h.perform u).2.total < 2 ^ 64) :
    (h.perform u).2.Exact ∧ (h.perform u).2.budget.peak.toNat =
      max h.budget.peak.toNat (h.perform u).2.budget.used.toNat := by
  obtain ⟨hp, -⟩ | ⟨b, hg⟩ := h.perform_cases u
  · rw [hp]
    exact ⟨he, (Nat.max_eq_left (UInt64.le_iff_toNat_le.1 he.peak)).symm⟩
  · obtain ⟨rest, old, new, hold, hnew, -, hcount⟩ := hg.counts
    rw [hg.granted] at ht ⊢
    have hold' : old ≤ h.budget.used := by
      rw [UInt64.le_iff_toNat_le, he.used, hold]
      omega
    have hpeak := hcount.peak he.peak hold'
    have hused := hcount.used (he.used.trans hold) (by rwa [total, hnew] at ht)
    refine ⟨⟨hused.trans hnew.symm, ?_⟩, hpeak⟩
    rw [UInt64.le_iff_toNat_le]
    change b.used.toNat ≤ b.peak.toNat
    omega

/-- The count is exact after any run of uses during which it fits into a word. -/
theorem Exact.afterAll (he : h.Exact) {uses : List Use}
    (hfit : ∀ past, past <+: uses → (h.afterAll past).total < 2 ^ 64) : (h.afterAll uses).Exact := by
  induction uses using List.reverseRecOn with
  | nil => exact he
  | append_singleton uses u ih =>
    have hlast := hfit _ (List.prefix_refl _)
    rw [afterAll_concat] at hlast ⊢
    exact ((ih fun past hpast => hfit past (hpast.trans (List.prefix_append _ _))).perform hlast).1

/-- The peak is the greatest count of a run that began with nothing. -/
theorem peak_afterAll (capacity : UInt64) {uses : List Use}
    (hfit : ∀ past, past <+: uses → ((ofCapacity capacity).afterAll past).total < 2 ^ 64) :
    let after past := (ofCapacity capacity).afterAll past
    (∀ past, past <+: uses → (after past).budget.used ≤ (after uses).budget.peak) ∧
      ∃ past, past <+: uses ∧ (after past).budget.used = (after uses).budget.peak := by
  intro after
  induction uses using List.reverseRecOn with
  | nil =>
    refine ⟨fun past hpast => ?_, [], List.prefix_refl _, rfl⟩
    obtain rfl := List.prefix_nil.1 hpast
    exact UInt64.le_refl _
  | append_singleton uses u ih =>
    have hfront : ∀ past, past <+: uses → (after past).total < 2 ^ 64 :=
      fun past hpast => hfit past (hpast.trans (List.prefix_append _ _))
    have hlast : (after (uses ++ [u])).total < 2 ^ 64 := hfit _ (List.prefix_refl _)
    obtain ⟨hle, top, htop, heq⟩ := ih hfront
    have hconcat : after (uses ++ [u]) = ((after uses).perform u).2 := afterAll_concat _ uses u
    obtain ⟨hexact, hpeak⟩ :=
      ((exact_ofCapacity capacity).afterAll hfront).perform (hconcat ▸ hlast)
    change ((after uses).perform u).2.Exact at hexact
    change ((after uses).perform u).2.budget.peak.toNat =
      max (after uses).budget.peak.toNat ((after uses).perform u).2.budget.used.toNat at hpeak
    rw [← hconcat] at hexact hpeak
    refine ⟨fun past hpast => ?_, ?_⟩
    · obtain rfl | hpast := List.prefix_concat_iff.1 hpast
      · exact hexact.peak
      · have h := hle past hpast
        rw [UInt64.le_iff_toNat_le] at h ⊢
        omega
    · -- The peak is the one before, or it is reached now.
      by_cases h : (after (uses ++ [u])).budget.used ≤ (after uses).budget.peak
      · refine ⟨top, htop.trans (List.prefix_append _ _), ?_⟩
        rw [UInt64.le_iff_toNat_le] at h
        rw [heq, ← UInt64.toNat_inj]
        omega
      · refine ⟨uses ++ [u], List.prefix_refl _, ?_⟩
        rw [UInt64.le_iff_toNat_le] at h
        rw [← UInt64.toNat_inj]
        omega

/-- **A budget counts its guards.** However it is used, and as long as the bytes of all guards fit into a
word:

* the bytes in use are those of the guards that are held, and the peak is the greatest count there has been;
* a use of a guard that is held is granted if it does not mind the capacity, asks for nothing more, or stays
  within the capacity with what it asks for, and in no other case;
* a use that is granted leads to the guard that was asked for, and one that is refused changes nothing. -/
theorem counts_afterAll (capacity : UInt64) (uses : List Use)
    (hfit : ∀ past, past <+: uses → ((ofCapacity capacity).afterAll past).total < 2 ^ 64) :
    let after past := (ofCapacity capacity).afterAll past
    (after uses).budget.used.toNat = (after uses).total ∧
      (∀ past, past <+: uses → (after past).budget.used ≤ (after uses).budget.peak) ∧
      (∃ past, past <+: uses ∧ (after past).budget.used = (after uses).budget.peak) ∧
      ∀ past u, past ++ [u] <+: uses →
        let h := after past
        ((h.perform u).1 = true ↔ h.holds u = true ∧
          (u.isChecked = false ∨ h.demand u = 0 ∨ h.total + h.demand u ≤ capacity.toNat)) ∧
        ((h.perform u).1 = true → (h.perform u).2.guards = u.applied h.guards) ∧
        ((h.perform u).1 = false → (h.perform u).2 = h) := by
  intro after
  have hexact {past : List Use} (hpast : past <+: uses) : (after past).Exact :=
    (exact_ofCapacity capacity).afterAll fun p hp => hfit p (hp.trans hpast)
  obtain ⟨hle, hreached⟩ := peak_afterAll capacity hfit
  refine ⟨(hexact (List.prefix_refl _)).used, hle, hreached, fun past u hpast => ?_⟩
  intro h
  have he : h.Exact := hexact ((List.prefix_append _ _).trans hpast)
  have hcap : h.budget.capacity = capacity := capacity_afterAll _ past
  have hlast : (h.perform u).2.total < 2 ^ 64 := afterAll_concat _ past u ▸ hfit _ hpast
  obtain hrefused | ⟨b, hg⟩ := h.perform_cases u
  · have hp := hrefused.1
    rw [hp]
    refine ⟨iff_of_false Bool.false_ne_true ?_, nofun, fun _ => rfl⟩
    rintro ⟨hh, hfits⟩
    obtain hno | ⟨hc, hfull⟩ := hrefused.2
    · exact Bool.false_ne_true (hno.symm.trans hh)
    · refine hfull ?_
      rw [Budget.Admits, he.used, hcap]
      obtain hu | hd | hfits := hfits
      · exact absurd (hu.symm.trans hc) Bool.false_ne_true
      · exact .inl hd
      · exact .inr (Nat.le_trans (Nat.min_le_left _ _) hfits)
  · refine ⟨iff_of_true (congrArg Prod.fst hg.perform) ⟨hg.holds, ?_⟩, fun _ => by rw [hg.granted],
      fun hp => absurd (hp.symm.trans (congrArg Prod.fst hg.perform)) Bool.false_ne_true⟩
    cases hc : u.isChecked with
    | false => exact .inl rfl
    | true =>
      by_cases hd : h.demand u = 0
      · exact .inr (.inl hd)
      · have hadmits := hg.admits hc
        have htotal := hg.total_eq hd
        rw [Budget.Admits, he.used, hcap, maxWord] at hadmits
        omega

/-- A guard grows beyond the capacity, so that nothing more is granted until it shrinks. -/
theorem counts_afterAll_overshoot :
    let after past := (ofCapacity 100).afterAll past
    let uses := [.acquire 40 "a", .resizeUnchecked 0 120, .tryAcquire 1 "b", .tryResize 0 10, .tryAcquire 1 "b"]
    (after uses).budget.used.toNat = 11 ∧ (after (uses.take 2)).budget.used ≤ (after uses).budget.peak ∧
      ((after (uses.take 2)).perform (.tryAcquire 1 "b")).1 = false := by
  intro after uses
  have hfit : ∀ past ∈ uses.inits, (after past).total < 2 ^ 64 := by decide
  obtain ⟨hused, hle, -, hsteps⟩ :=
    counts_afterAll 100 uses fun past hpast => hfit past ((List.mem_inits _ _).2 hpast)
  obtain ⟨hgranted, -⟩ := hsteps (uses.take 2) (.tryAcquire 1 "b") ⟨uses.drop 3, rfl⟩
  refine ⟨hused, hle _ ⟨uses.drop 2, rfl⟩, Bool.eq_false_iff.2 fun h => ?_⟩
  exact absurd (hgranted.1 h) (by decide)

/-! ## Checked uses -/

/-- The use asks for so much that a word cannot count it. -/
def Overruns (h : Holdings) (u : Use) : Prop := h.holds u = true ∧ maxWord < h.total + h.demand u

/-- All that is held fits into the capacity, and is counted. -/
structure Within (h : Holdings) : Prop extends h.Exact where
  total_le : h.total ≤ h.budget.capacity.toNat

theorem Within.total_lt (hw : h.Within) : h.total < 2 ^ 64 :=
  Nat.lt_of_le_of_lt hw.total_le h.budget.capacity.toNat_lt

/-- A checked use keeps within the capacity, unless it overruns a budget that has all words for a capacity. -/
theorem Within.perform (hw : h.Within) (hc : u.isChecked = true)
    (hu : h.budget.capacity.toNat < maxWord ∨ ¬h.Overruns u) : (h.perform u).2.Within := by
  have hle : (h.perform u).2.total ≤ (h.perform u).2.budget.capacity.toNat := by
    rw [capacity_perform]
    have hbefore := hw.total_le
    obtain ⟨hp, -⟩ | ⟨b, hg⟩ := h.perform_cases u
    · rw [hp]
      exact hbefore
    · have htotal := hg.total_le
      obtain hd | hfits := hg.admits hc
      · omega
      · have hsum : ¬maxWord < h.total + h.demand u ∨ h.budget.capacity.toNat < maxWord :=
          hu.symm.imp_left fun hno hlt => hno ⟨hg.holds, hlt⟩
        rw [hw.used] at hfits
        omega
  exact ⟨(hw.toExact.perform (Nat.lt_of_le_of_lt hle (UInt64.toNat_lt _))).1, hle⟩

/-- A use that overruns a budget that has all words for a capacity is granted all the same. -/
theorem Within.overrun (hw : h.Within) (hcap : h.budget.capacity.toNat = maxWord) (hu : h.Overruns u) :
    h.budget.capacity.toNat < (h.perform u).2.total := by
  have hd : h.demand u ≠ 0 := by
    have := hw.total_le
    have := hu.2
    omega
  obtain hrefused | ⟨b, hg⟩ := h.perform_cases u
  · obtain hno | ⟨-, hfull⟩ := hrefused.2
    · exact absurd (hno.symm.trans hu.1) Bool.false_ne_true
    · exact absurd (.inr (hcap ▸ Nat.min_le_right _ _)) hfull
  · rw [hg.total_eq hd, hcap]
    exact hu.2

theorem perform_drop (hg : h.guards ≠ []) : (h.perform (.drop 0)).2.guards = h.guards.tail := by
  obtain ⟨b, guards⟩ := h
  cases guards with
  | nil => exact absurd rfl hg
  | cons g rest => rfl

/-- When all guards are dropped, nothing is counted any more. -/
theorem Within.dropAll (hw : h.Within) : h.dropAll.guards = [] ∧ h.dropAll.budget.used = 0 := by
  rw [Holdings.dropAll]
  obtain ⟨n, hn⟩ : ∃ n, h.guards.length = n := ⟨_, rfl⟩
  rw [hn]
  induction n generalizing h with
  | zero =>
    have hnil := List.eq_nil_of_length_eq_zero hn
    refine ⟨hnil, UInt64.toNat_inj.1 ?_⟩
    rw [List.replicate_zero]
    change h.budget.used.toNat = 0
    rw [hw.used, total, hnil]
    rfl
  | succ n ih =>
    have hne : h.guards ≠ [] := List.ne_nil_of_length_eq_add_one hn
    have hdrop : (h.perform (.drop 0)).2.Within := hw.perform rfl <| .inr fun hover => by
      have hsum : maxWord < h.total := hover.2
      have hlt := hw.total_lt
      rw [maxWord] at hsum
      omega
    exact ih hdrop (by rw [perform_drop hne, List.length_tail, hn]; rfl)

/-- **Checked uses stay within the capacity, unless they overrun a capacity of all words.** The bytes of the
guards that are held exceed the capacity at some point of a run of checked uses if and only if the capacity is
the largest word and a use asks for so much that a word cannot count it: then the count stays at the
largest word, and the use is granted. In all other runs the budget counts the guards exactly, and nothing
is in use once they are dropped. -/
theorem within_afterAll_iff (capacity : UInt64) (uses : List Use)
    (hc : ∀ u ∈ uses, u.isChecked = true) :
    let after past := (ofCapacity capacity).afterAll past
    ((∀ past, past <+: uses → (after past).total ≤ capacity.toNat) ↔
      capacity.toNat < maxWord ∨ ∀ past u, past ++ [u] <+: uses → ¬(after past).Overruns u) ∧
    ((∀ past, past <+: uses → (after past).total ≤ capacity.toNat) →
      (after uses).budget.used.toNat = (after uses).total ∧
        (after uses).dropAll.guards = [] ∧ (after uses).dropAll.budget.used = 0) := by
  intro after
  have hcapacity (past : List Use) : (after past).budget.capacity = capacity := capacity_afterAll _ past
  have within {past : List Use} (hle : ∀ p, p <+: past → (after p).total ≤ capacity.toNat) :
      (after past).Within :=
    ⟨(exact_ofCapacity capacity).afterAll fun p hp => Nat.lt_of_le_of_lt (hle p hp) capacity.toNat_lt,
      hcapacity past ▸ hle past (List.prefix_refl _)⟩
  refine ⟨⟨fun hle => ?_, fun hno => ?_⟩, fun hle => ?_⟩
  · by_cases hcap : capacity.toNat < maxWord
    · exact .inl hcap
    · refine .inr fun past u hpast hover => ?_
      have hw : (after past).Within :=
        within fun p hp => hle p ((hp.trans (List.prefix_append _ _)).trans hpast)
      have hmax : capacity.toNat = maxWord := by
        have := capacity.toNat_lt
        rw [maxWord] at hcap ⊢
        omega
      have hbeyond := hw.overrun ((congrArg _ (hcapacity past)).trans hmax) hover
      have hnext := hle _ hpast
      rw [hcapacity, ← afterAll_concat] at hbeyond
      exact Nat.lt_irrefl _ (Nat.lt_of_lt_of_le hbeyond hnext)
  · suffices hall : ∀ past, past <+: uses → (after past).Within from
      fun past hpast => hcapacity past ▸ (hall past hpast).total_le
    intro past hpast
    induction past using List.reverseRecOn with
    | nil => exact ⟨exact_ofCapacity capacity, Nat.zero_le _⟩
    | append_singleton past u ih =>
      have hw := ih ((List.prefix_append _ _).trans hpast)
      have hstep := hw.perform (hc u (hpast.subset (by simp)))
        (hno.imp (fun h => hcapacity past ▸ h) fun h => h past u hpast)
      rwa [← afterAll_concat] at hstep
  · have hw := within hle
    exact ⟨hw.used, hw.dropAll⟩

/-- One byte on top of the largest word is granted, and after all guards are dropped the count is wrong. -/
theorem within_afterAll_iff_largest :
    let after past := (ofCapacity 18446744073709551615).afterAll past
    let uses := [.tryAcquire 18446744073709551615 "a", .tryAcquire 1 "b"]
    (∃ past, past <+: uses ∧ (18446744073709551615 : UInt64).toNat < (after past).total) ∧
      (after uses).dropAll.guards = [] ∧ (after uses).dropAll.budget.used = 18446744073709551615 := by
  intro after uses
  obtain ⟨hiff, -⟩ := within_afterAll_iff 18446744073709551615 uses (by decide)
  have hover : (after (uses.take 1)).Overruns (.tryAcquire 1 "b") := ⟨rfl, by decide⟩
  have hnot := mt hiff.1 fun h => h.elim (by decide) fun h => h _ _ (List.prefix_refl _) hover
  refine ⟨?_, by decide, by decide⟩
  simpa using hnot

end Holdings
end LazyQuery
