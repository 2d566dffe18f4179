import LazyQuery.Proofs.Engine.Run

/-!
# The bytes of results in memory

The budget counts the bytes of exactly those results that are cached. A guard is taken when a result is
evaluated, supplied as a base table, or read back; in the last case it is first taken for an estimate
and then resized, or released if the store fails. It is given back when the result is given up.

`Site.Accounted` is what holds between operations as long as the bytes together fit into a word. The
sum only grows in the course of a computation, so that it is enough to ask for this at the end.
-/

set_option autoImplicit false

namespace LazyQuery

open scoped Numbers

/-- The bytes of what is cached of a node. -/
def NodeState.cachedBytes (st : NodeState) : Nat :=
  match st.cached with
  | some c => c.value.footprint.toNat
  | none => 0

namespace Site

/-- The bytes of all results in memory together. -/
def cachedBytes (s : Site) : Nat := (s.engine.states.toList.map NodeState.cachedBytes).sum

/-- The budget counts the results in memory, and nothing else. -/
structure Accounted (s : Site) : Prop where
  guards : ∀ {i st c}, s.known? i = some st → st.cached = some c → c.guard.bytes = c.value.footprint
  used : s.engine.budget.used.toNat = s.cachedBytes
  peak : s.engine.budget.used ≤ s.engine.budget.peak
  capacity : s.engine.budget.capacity = s.engine.config.memoryCap

variable {s t : Site} {id : NodeId}

/-! ## The sum -/

theorem sum_map_modify {α : Type} {xs : List α} {i : Nat} {x : α} (h : xs[i]? = some x) (f : α → α)
    (size : α → Nat) : ((xs.modify i f).map size).sum + size x = (xs.map size).sum + size (f x) := by
  induction xs generalizing i with
  | nil => simp at h
  | cons y ys ih =>
    cases i with
    | zero =>
      rw [List.getElem?_cons_zero, Option.some.injEq] at h
      subst h
      simp
      omega
    | succ i =>
      have := ih (i := i) (by simpa using h)
      simp
      omega

/-- What a change of one node does to the sum. -/
theorem cachedBytes_modify {st : NodeState} (hst : s.known? id = some st)
    (f : NodeState → NodeState) :
    (s.modify id f).cachedBytes + st.cachedBytes = s.cachedBytes + (f st).cachedBytes := by
  have h : s.engine.states.toList[id]? = some st := by rwa [Array.getElem?_toList]
  have := sum_map_modify h f NodeState.cachedBytes
  rwa [← Array.toList_modify] at this

theorem cachedBytes_eq_of_cached {st st' : NodeState} (h : st'.cached = st.cached) :
    st'.cachedBytes = st.cachedBytes := by
  rw [NodeState.cachedBytes, h]
  rfl

/-- A change that leaves alone what is cached leaves the sum alone. -/
theorem cachedBytes_modify_same {f : NodeState → NodeState}
    (hf : ∀ st, (f st).cached = st.cached) : (s.modify id f).cachedBytes = s.cachedBytes := by
  cases hst : s.known? id with
  | some st =>
    have := cachedBytes_modify hst f
    rw [cachedBytes_eq_of_cached (hf st)] at this
    exact Nat.add_right_cancel this
  | none =>
    have : s.engine.states.modify id f = s.engine.states := by
      refine Array.ext_getElem? fun i => ?_
      rw [Array.getElem?_modify]
      split
      · rename_i h
        subst h
        rw [show s.engine.states[id]? = none from hst]
        rfl
      · rfl
    rw [cachedBytes, modify, this]
    rfl

theorem cachedBytes_grown (s : Site) (g : Graph) : (s.grown g).cachedBytes = s.cachedBytes := by
  rw [cachedBytes, grown]
  simp only [Array.toList_append, Array.toList_replicate, List.map_append, List.map_replicate,
    List.sum_append]
  simp [cachedBytes, NodeState.cachedBytes, NodeState.fresh]

/-! ## Changes of the count -/

/-- The count stays right as long as it is the same and no guard changes. -/
theorem Accounted.modify (hs : s.Accounted) {f : NodeState → NodeState}
    (hf : ∀ st, (f st).cached = st.cached) : (s.modify id f).Accounted where
  guards {i st c} hst hc := by
    rw [known?_modify] at hst
    split at hst
    · obtain ⟨st₀, hst₀, rfl⟩ := Option.map_eq_some_iff.1 hst
      exact hs.guards hst₀ ((hf st₀).symm.trans hc)
    · exact hs.guards hst hc
  used := (cachedBytes_modify_same hf).symm ▸ hs.used
  peak := hs.peak
  capacity := hs.capacity

theorem Accounted.withMounted (hs : s.Accounted) (m : Mounted) : (s.withMounted m).Accounted :=
  ⟨hs.guards, hs.used, hs.peak, hs.capacity⟩

theorem Accounted.withBudget (hs : s.Accounted) {b : Budget}
    (hu : b.used.toNat = s.engine.budget.used.toNat) (hp : b.used ≤ b.peak)
    (hc : b.capacity = s.engine.budget.capacity) : (s.withBudget b).Accounted :=
  ⟨hs.guards, hu.trans hs.used, hp, hc.trans hs.capacity⟩

/-- A result comes into memory with a guard for its bytes, which the budget has counted. -/
theorem Accounted.keep (hs : s.Accounted) {st : NodeState} (hst : s.known? id = some st)
    (hc : st.cached = none) {f : NodeState → NodeState} {value : Result} {g : Guard} {b : Budget}
    (hf : (f st).cached = some ⟨value, g⟩) (hg : g.bytes = value.footprint)
    (hu : b.used.toNat = s.engine.budget.used.toNat + value.footprint.toNat)
    (hp : b.used ≤ b.peak) (hcap : b.capacity = s.engine.budget.capacity) :
    ((s.withBudget b).modify id f).Accounted where
  guards {i st' c} hst' hc' := by
    rw [known?_modify] at hst'
    split at hst'
    · rename_i h
      subst h
      obtain ⟨st₀, hst₀, rfl⟩ := Option.map_eq_some_iff.1 hst'
      rw [show s.known? id = some st₀ from hst₀, Option.some.injEq] at hst
      subst hst
      rw [hf, Option.some.injEq] at hc'
      subst hc'
      exact hg
    · exact hs.guards hst' hc'
  used := by
    have h := cachedBytes_modify (s := s.withBudget b) hst f
    have hnone : st.cachedBytes = 0 := by rw [NodeState.cachedBytes, hc]
    have hsome : (f st).cachedBytes = value.footprint.toNat := by rw [NodeState.cachedBytes, hf]
    rw [hnone, hsome, Nat.add_zero] at h
    rw [h]
    exact hu.trans (congrArg (· + _) hs.used)
  peak := hp
  capacity := hcap.trans hs.capacity

/-- The sum that a result adds to. -/
theorem cachedBytes_keep {b : Budget} {st : NodeState} (hst : s.known? id = some st)
    (hc : st.cached = none) {f : NodeState → NodeState} {value : Result} {g : Guard}
    (hf : (f st).cached = some ⟨value, g⟩) :
    ((s.withBudget b).modify id f).cachedBytes = s.cachedBytes + value.footprint.toNat := by
  have h := cachedBytes_modify (s := s.withBudget b) hst f
  have hnone : st.cachedBytes = 0 := by rw [NodeState.cachedBytes, hc]
  have hsome : (f st).cachedBytes = value.footprint.toNat := by rw [NodeState.cachedBytes, hf]
  rw [hnone, hsome, Nat.add_zero] at h
  exact h

end Site

/-! ## Moves -/

namespace Move

variable {s t : Site} {id : NodeId}

/-- A result that is evaluated is that of a node. -/
theorem known_of_evaluate (hs : s.Sound) {fetch : Fetch} {value : Result}
    (hv : s.engine.graph.evaluate fetch id = .ok value) : ∃ st, s.known? id = some st := by
  obtain ⟨n, hn, -⟩ := bind_eq_ok.1 hv
  exact hs.known (Graph.node_eq_ok.1 (mapError_eq_ok.1 hn))

/-- The bytes in memory only grow. -/
theorem cachedBytes_le (h : Move s id t) (hs : s.Sound) : s.cachedBytes ≤ t.cachedBytes := by
  cases h with
  | flag b => exact Nat.le_of_eq (Site.cachedBytes_modify_same (by exact fun _ => rfl)).symm
  | evaluated value _ hi hv =>
    obtain ⟨st, hst⟩ := known_of_evaluate hs hv
    rw [Site.cachedBytes_keep hst (cached_of_inMemory hst hi) (f := .keeping _ value _) rfl]
    exact Nat.le_add_right _ _
  | foundTooLarge => exact Nat.le_of_eq (Site.cachedBytes_modify_same (by exact fun _ => rfl)).symm
  | readFailed => exact Nat.le_refl _
  | readBack rows estimated value g b m hi hr =>
    obtain ⟨st, hst⟩ := Site.known?_of_relational hr
    rw [Site.cachedBytes_keep (s := s.withMounted m) hst (cached_of_inMemory hst hi)
      (f := .keeping rows value _) rfl]
    exact Nat.le_add_right _ _
  | loaded => exact Nat.le_of_eq (Site.cachedBytes_modify_same (by exact fun _ => rfl)).symm
  | created => exact Nat.le_of_eq (Site.cachedBytes_modify_same (by exact fun _ => rfl)).symm
  | storeFailed => exact Nat.le_refl _

/-- **A move keeps the count right**, if the bytes in memory fit into a word afterwards. -/
theorem accounted (h : Move s id t) (hs : s.Sound) (ha : s.Accounted)
    (ht : t.cachedBytes < 2 ^ 64) : t.Accounted := by
  cases h with
  | flag b => exact ha.modify fun _ => rfl
  | evaluated value _ hi hv =>
    obtain ⟨st, hst⟩ := known_of_evaluate hs hv
    have hc := cached_of_inMemory hst hi
    rw [Site.cachedBytes_keep hst hc (f := .keeping _ value _) rfl, ← ha.used] at ht
    exact ha.keep hst hc rfl rfl (Budget.reserve_used ht) (Budget.withUsed_le_peak _ _) rfl
  | foundTooLarge => exact ha.modify fun _ => rfl
  | readFailed estimated g b hfree hb =>
    obtain ⟨hg, hu⟩ := Budget.acquire_guard hb hfree
    rw [← hg] at hu
    refine ha.withBudget (Budget.release_used hu) (Budget.giveBack_le_peak ?_ ?_) ?_
    · exact Budget.acquire_le_peak ha.peak hb
    · rw [UInt64.le_iff_toNat_le, hu]
      exact Nat.le_add_left _ _
    · exact (Budget.raises_acquire hb).1
  | readBack rows estimated value g b m hi hr hfree hb =>
    obtain ⟨st, hst⟩ := Site.known?_of_relational hr
    have hc := cached_of_inMemory hst hi
    rw [Site.cachedBytes_keep (s := s.withMounted m) hst hc (f := .keeping rows value _) rfl] at ht
    obtain ⟨hg, hu⟩ := Budget.acquire_guard hb hfree
    rw [← hg] at hu
    refine (ha.withMounted m).keep hst hc (f := .keeping rows value _) rfl
      Budget.resizeUnchecked_bytes ?_ ?_ ?_
    · refine Budget.resizeUnchecked_used hu ?_
      rw [(ha.withMounted m).used]
      exact ht
    · refine Budget.resizeUnchecked_le_peak (Budget.acquire_le_peak ha.peak hb) ?_ _
      rw [UInt64.le_iff_toNat_le, hu]
      exact Nat.le_add_left _ _
    · exact ((Budget.raises_acquire hb).trans (Budget.raises_resizeUnchecked b g _)).1
  | loaded m => exact (ha.withMounted m).modify fun _ => rfl
  | created m => exact (ha.withMounted m).modify fun _ => rfl
  | storeFailed m => exact ha.withMounted m

/-- The peak never falls. -/
theorem raises (h : Move s id t) : s.engine.budget.Raises t.engine.budget := by
  cases h with
  | flag | foundTooLarge | loaded | created | storeFailed => exact .refl _
  | evaluated => exact Budget.raises_withUsed _ _
  | readFailed estimated g b hfree hb => exact (Budget.raises_acquire hb).trans (.refl _)
  | readBack rows estimated value g b m hi hr hfree hb =>
    exact (Budget.raises_acquire hb).trans (Budget.raises_resizeUnchecked b g _)

end Move

namespace Moves

variable {s t : Site} {bound : NodeId}

theorem accounted (h : Moves bound s t) (hs : s.Sound) (ha : s.Accounted)
    (ht : t.cachedBytes < 2 ^ 64) : t.Accounted := by
  induction h with
  | refl => exact ha
  | @tail t u h hm ih =>
    obtain ⟨i, -, hm⟩ := hm
    have hst : t.Sound := Moves.sound h hs
    exact hm.accounted hst (ih (Nat.lt_of_le_of_lt (hm.cachedBytes_le hst) ht)) ht

theorem raises (h : Moves bound s t) : s.engine.budget.Raises t.engine.budget := by
  induction h with
  | refl => exact .refl _
  | tail _ hm ih =>
    obtain ⟨i, -, hm⟩ := hm
    exact ih.trans hm.raises

end Moves

/-! ## Runs -/

namespace Site

variable {s t : Site} {e : Option NodeId} {x : Option Table}

theorem Accounted.grown (ha : s.Accounted) (g : Graph) : (s.grown g).Accounted where
  guards hst hc := by
    rcases known?_grown hst with hst | rfl
    · exact ha.guards hst hc
    · cases hc
  used := (s.cachedBytes_grown g).symm ▸ ha.used
  peak := ha.peak
  capacity := ha.capacity

/-- **An operation keeps the count right**, if the bytes in memory fit into a word afterwards. -/
theorem Turn.accounted (h : s.Turn e x t) (hs : s.AtRest) (ha : s.Accounted)
    (ht : t.cachedBytes < 2 ^ 64) : t.Accounted := by
  cases h with
  | computed h => exact h.moves.accounted hs.sound ha ht
  | built g hg h => exact h.moves.accounted (hs.grown hg).sound (ha.grown g) ht
  | supplied x g hg m y hw =>
    have hst : ((s.grown g).withMounted m).known? s.engine.graph.size = some .fresh :=
      known?_grown_self hs.sound (Graph.addSource_adds hg)
    rw [Site.supplied, Site.cachedBytes_keep hst rfl rfl] at ht
    refine ((ha.grown g).withMounted m).keep hst rfl rfl rfl (Budget.reserve_used ?_)
      (Budget.withUsed_le_peak _ _) rfl
    rw [ha.used, ← s.cachedBytes_grown g]
    exact ht
  | @evicted id n st c _ hn hsource hst hc =>
    have hsum := cachedBytes_modify hst fun st => { st with cached := none }
    have hold : st.cachedBytes = c.guard.bytes.toNat := by
      rw [NodeState.cachedBytes, hc, ha.guards hst hc]
    have hu : s.engine.budget.used.toNat =
        (s.modify id fun st => { st with cached := none }).cachedBytes + c.guard.bytes.toNat := by
      rw [ha.used, ← hold, hsum]
      rfl
    refine ⟨fun {i st' c'} hst' hc' => ?_, Budget.release_used hu, ?_, ha.capacity⟩
    · rw [known?_modify] at hst'
      split at hst'
      · obtain ⟨st₀, -, rfl⟩ := Option.map_eq_some_iff.1 hst'
        cases hc'
      · exact ha.guards hst' hc'
    · refine Budget.giveBack_le_peak ha.peak ?_
      rw [UInt64.le_iff_toNat_le, hu]
      exact Nat.le_add_left _ _
  | configured => exact ⟨ha.guards, ha.used, ha.peak, ha.capacity⟩
  | remounted m => exact ha.withMounted m

theorem Turn.raises (h : s.Turn e x t) : s.engine.budget.Raises t.engine.budget := by
  cases h with
  | computed h => exact h.moves.raises
  | built g hg h => exact h.moves.raises
  | supplied => exact Budget.raises_withUsed _ _
  | evicted | configured | remounted => exact .refl _

theorem Reached.accounted (h : Reached (fun s => s.cachedBytes < 2 ^ 64) s) : s.Accounted := by
  induction h with
  | start hd h _ =>
    obtain ⟨-, -, -, hstates, hbudget, hconfig⟩ := Engine.start_spec hd h
    refine ⟨fun hst _ => ?_, ?_, ?_, ?_⟩
    · rw [known?, hstates] at hst
      simp at hst
    · rw [hbudget, cachedBytes, hstates]
      rfl
    · rw [hbudget]
      exact UInt64.le_refl _
    · rw [hbudget, hconfig]
      rfl
  | @step s t x h hst ht ih =>
    cases hst with
    | done o h' => exact ((o.run_ends h.atRest).of_ok h').accounted h.atRest ih ht
    | failed o h' => exact ((o.run_ends h.atRest).of_error h').accounted h.atRest ih ht
    | elsewhere d _ => exact ⟨ih.guards, ih.used, ih.peak, ih.capacity⟩

/-- **The budget counts the results in memory.** In every run, whether its operations succeed or
fail, and as long as the bytes of all results in memory fit into a word, the bytes in use are those of
the results, what is free is the rest of the capacity, and the peak is no less than the bytes in use
and never falls. -/
theorem memory_is_accounted (h : Reached (fun s => s.cachedBytes < 2 ^ 64) s) :
    s.engine.budget.used.toNat = s.cachedBytes ∧
      s.engine.available.toNat = s.engine.config.memoryCap.toNat - s.cachedBytes ∧
      s.engine.budget.used ≤ s.engine.budget.peak ∧
      ∀ {x t}, s.Step x t → s.engine.budget.peak ≤ t.engine.budget.peak := by
  have ha := h.accounted
  refine ⟨ha.used, ?_, ha.peak, fun {x t} hst => ?_⟩
  · rw [Engine.available, Budget.toNat_available, ha.capacity, ha.used]
  · cases hst with
    | done o h' => exact ((o.run_ends h.atRest).of_ok h').raises.2
    | failed o h' => exact ((o.run_ends h.atRest).of_error h').raises.2
    | elsewhere d _ => exact UInt64.le_refl _

/-- A first row is computed in the store, and then a column is asked for that is not there. A row of the base
table is in memory, and the row computed; when the latter is given up, the peak stays. -/
theorem memory_is_accounted_row : ∃ s : Site, 0 < s.cachedBytes ∧ s.engine.view.relational 1 = true ∧
    s.engine.budget.used < s.engine.budget.peak ∧
    Reached (fun s => s.cachedBytes < 2 ^ 64) s ∧
    s.engine.budget.used.toNat = s.cachedBytes ∧
    s.engine.available.toNat = s.engine.config.memoryCap.toNat - s.cachedBytes ∧
    s.engine.budget.used ≤ s.engine.budget.peak ∧
    ∀ {x t}, s.Step x t → s.engine.budget.peak ≤ t.engine.budget.peak := by
  let asked : List Operation := [.addTable ⟨[⟨"k", [.int 1]⟩]⟩, .build (.limit 0 1), .compute 1,
    .build (.projection 0 ["v"] false), .evict 1]
  obtain ⟨s₀, hstart, hs₀, hpassed, hbytes, hr, hpeak⟩ : ∃ s₀,
      Engine.start .empty "a" (Config.standard.withStrategy .always) = .ok s₀ ∧
        s₀.cachedBytes < 2 ^ 64 ∧ s₀.Passes (fun s => s.cachedBytes < 2 ^ 64) asked ∧
        0 < (s₀.after asked).cachedBytes ∧ (s₀.after asked).engine.view.relational 1 = true ∧
        (s₀.after asked).engine.budget.used < (s₀.after asked).engine.budget.peak :=
    ⟨_, rfl, by decide, by decide +kernel, by decide +kernel, by decide +kernel, by decide +kernel⟩
  have hreached : Reached (fun s => s.cachedBytes < 2 ^ 64) (s₀.after asked) :=
    Reached.passes (.start Disk.valid_empty hstart hs₀) hpassed
  exact ⟨_, hbytes, hr, hpeak, hreached, memory_is_accounted hreached⟩

end Site
end LazyQuery
