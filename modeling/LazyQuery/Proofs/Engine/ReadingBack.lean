import LazyQuery.Proofs.Engine.Markers
import LazyQuery.Proofs.Memory.Estimates

/-!
# Memory for results that are read back

Before a result is read from the store, a guard is taken for the bytes that its schema and its number of
rows are estimated to need. Afterwards the guard is resized to what the result counts for.

* `Site.ReadsBack` is a result that is read back at some point of a run.
* The number of rows that is estimated for is that of the table in the store (`ReadsBack.resizes`), so that
  what is known of estimates for columns of fixed width applies (`estimate_covers`).
-/

set_option autoImplicit false

namespace LazyQuery

open scoped Numbers

namespace Site

variable {s t : Site} {id : NodeId} {n : Node} {c : Cached}

/-- A run passes through the site, between operations or while a result is computed. -/
def Passed (s : Site) : Prop := ∃ start bound, Reached (fun _ => True) start ∧ Moves bound start s

theorem Reached.tracked {P : Site → Prop} (h : Reached P s) : s.Tracked := by
  induction h with
  | start hd h _ => exact Engine.start_tracked hd h
  | step h hst _ ih =>
    cases hst with
    | done o ho => exact ih.turn h.atRest ((o.run_ends h.atRest).of_ok ho)
    | failed o ho => exact ih.turn h.atRest ((o.run_ends h.atRest).of_error ho)
    | elsewhere d hd => exact ih.elsewhere hd

theorem Passed.sound (h : s.Passed) : s.Sound := by
  obtain ⟨start, bound, hstart, hm⟩ := h
  exact hm.sound hstart.atRest.sound

theorem Passed.tracked (h : s.Passed) : s.Tracked := by
  obtain ⟨start, bound, hstart, hm⟩ := h
  exact hstart.tracked.moves hstart.atRest.sound hm

/-- At some point of a run, a result that is in the store only is read into memory. -/
structure ReadsBack (s : Site) (id : NodeId) (c : Cached) (t : Site) : Prop where
  passed : s.Passed
  relational : s.engine.view.relational id = true
  inMemory : s.engine.view.inMemory id = false
  done : Engine.readBack id s = .ok ⟨⟩ t
  kept : ∃ st, t.known? id = some st ∧ st.cached = some c

/-- Where a number of rows is recorded, it is not counted again. -/
theorem ends_readBack {st : NodeState} {rows : UInt64} {Q : PUnit → Site → Prop}
    {E : EngineError → Site → Prop} (hn : s.engine.graph.node? id = some n) (hst : s.known? id = some st)
    (hrows : st.rows = some rows) :
    Ends (Engine.readBack id) s Q E ↔ Ends (Engine.readIfFits id n rows) s Q E := by
  rw [Engine.readBack, ends_bind, Engine.ends_node hn, ends_bind, Engine.ends_state hst, hrows]

/-- What is estimated for is the number of rows that are read. -/
theorem ReadsBack.resizes (h : s.ReadsBack id c t) (hn : s.engine.graph.node? id = some n) :
    ∃ m g b, s.ReadsIn id (n.schema.estimateBytes (UInt64.ofNat c.value.rowCount)) c.value m g b ∧
      b.resizeUnchecked g c.value.footprint = (c.guard, t.engine.budget) := by
  have hs := h.passed.sound
  obtain ⟨st, hst⟩ := hs.known hn
  obtain ⟨x, hx⟩ := Option.isSome_iff_exists.1 (hs.table h.relational)
  have hrows := h.passed.tracked.tallied.stored hst h.relational hx
  have hread := (ends_readBack hn hst hrows).2 (Engine.readIfFits_spec hs hn _)
  obtain ⟨st', hst', hc⟩ := h.kept
  obtain rfl | ⟨value, m, g, b, hin, rfl⟩ := hread.of_ok h.done
  · rw [known?_modify_self hst, Option.some.injEq] at hst'
    subst hst'
    have hnone := Move.cached_of_inMemory hst h.inMemory
    rw [show st.cached = some c from hc] at hnone
    cases hnone
  · rw [known?_modify_self (by exact hst), Option.some.injEq] at hst'
    subst hst'
    cases hc
    rw [hin.value.rowCount hx]
    exact ⟨m, g, b, hin, rfl⟩

end Site

namespace Engine

open Site

/-- **An estimate for columns of fixed width is enough.** Of a table with the columns of a schema, all of
fixed width, whose cells are of the type of their column or missing, the bytes are at most those that
are estimated for its rows, also when it is collapsed. They are just as many if nothing is missing among
integers and floats. So if such a table is read back at any point of a run, then the guard that was taken
for the estimate does not grow when it is resized, and no more is in use than the capacity or what was in
use before. -/
theorem estimate_covers {s : Schema} {t : Table} (hs : s.IsFixedWidth) (ht : t.Valid)
    (ho : t.Obeys .ofType s) (hb : t.bytes < 2 ^ 64) :
    let estimate := s.estimateBytes (UInt64.ofNat t.rowCount)
    t.bytes ≤ estimate.toNat ∧ (Result.collapse t).bytes ≤ estimate.toNat ∧
      (t.IsFull s → t.bytes = estimate.toNat) ∧
      ∀ {x y : Site} {id : NodeId} {n : Node} {c : Cached}, x.ReadsBack id c y →
        x.engine.graph.node? id = some n → n.schema = s →
        c.value = .table t ∨ c.value = .collapse t →
        ∃ g b, x.engine.budget.acquire estimate "readback" = .ok (g, b) ∧
          b.resizeUnchecked g c.value.footprint = (c.guard, y.engine.budget) ∧
          c.guard.bytes ≤ g.bytes ∧ y.engine.budget.used ≤ b.used ∧
          y.engine.budget.used.toNat ≤
            max x.engine.budget.capacity.toNat x.engine.budget.used.toNat := by
  intro estimate
  have hle := Table.bytes_le_estimateBytes hs ht.level ho hb
  have hcollapsed := Nat.le_trans (Result.bytes_collapse_le ht.level) hle
  refine ⟨hle, hcollapsed, fun hf => Table.bytes_eq_estimateBytes hs ht.level ho hf hb, ?_⟩
  intro x y id n c hx hn hschema hv
  have hrows : c.value.rowCount = t.rowCount := by
    obtain hv | hv := hv
    · rw [hv, Result.rowCount]
    · rw [hv, Result.rowCount_collapse]
  have hbytes : c.value.bytes ≤ estimate.toNat := by
    obtain hv | hv := hv
    · rwa [hv, Result.bytes]
    · rwa [hv]
  have hfootprint : c.value.footprint ≤ estimate :=
    UInt64.le_iff_toNat_le.2 (Nat.le_trans c.value.toNat_footprint_le hbytes)
  obtain ⟨m, g, b, hin, hresize⟩ := hx.resizes hn
  rw [hrows, hschema] at hin
  exact ⟨g, b, hin.acquired, hresize,
    Budget.resizeUnchecked_shrinks hin.available hin.acquired hfootprint hresize⟩

/-- An integer that is read back needs just what was estimated. -/
theorem estimate_covers_limit :
    let t : Table := ⟨[⟨"k", [.int 1]⟩]⟩
    let s : Schema := ⟨[⟨"k", .int64, false⟩]⟩
    t.bytes = (s.estimateBytes 1).toNat ∧ ∃ x y c, Site.ReadsBack x 1 c y ∧ c.value = .table t ∧
      ∃ g b, x.engine.budget.acquire (s.estimateBytes 1) "readback" = .ok (g, b) ∧
        c.guard.bytes ≤ g.bytes ∧ y.engine.budget.used ≤ b.used := by
  intro t s
  have ho : t.Obeys .ofType s := ⟨by decide, .cons ⟨rfl, by unfold CellLaw.ofType; decide⟩ .nil⟩
  have hfull : t.IsFull s := by unfold Table.IsFull; decide
  obtain ⟨-, -, heq, hread⟩ := estimate_covers (by unfold Schema.IsFixedWidth; decide)
    ⟨by decide, by decide⟩ ho (by decide)
  refine ⟨heq hfull, ?_⟩
  let requests : List Operation := [.addTable t, .build (.limit 0 1), .compute 1, .evict 1]
  let held (x : Site) : Option Result := (x.known? 1).bind fun st => st.cached.map fun c => c.value
  -- The limit stays in the store when its result in memory is given up.
  have run : ∃ s₀, start .empty "a" (Config.standard.withStrategy .always) = .ok s₀ ∧
      (s₀.after requests).engine.view.relational 1 = true ∧
      (s₀.after requests).engine.view.inMemory 1 = false ∧
      ((s₀.after requests).engine.graph.node? 1).map (·.schema) = some s ∧
      ∃ y, (do readBack 1; return held (← get)) (s₀.after requests) = .ok (some (.table t)) y :=
    ⟨_, rfl, by decide +kernel⟩
  obtain ⟨s₀, hstart, hrelational, hmemory, hschema, z, hz⟩ := run
  obtain ⟨⟨⟩, y, hy, hheld⟩ := run_bind_eq_ok.1 hz
  obtain ⟨n, hn, hschema⟩ := Option.map_eq_some_iff.1 hschema
  obtain ⟨st, hst, hvalue⟩ := Option.bind_eq_some_iff.1 (EStateM.Result.ok.inj hheld).1
  obtain ⟨c, hc, hvalue⟩ := Option.map_eq_some_iff.1 hvalue
  have hpassed : (s₀.after requests).Passed :=
    ⟨_, 0, .after (.start Disk.valid_empty hstart trivial) _, .refl _ _⟩
  have hx : Site.ReadsBack (s₀.after requests) 1 c y :=
    ⟨hpassed, hrelational, hmemory, hy, st, hst, hc⟩
  obtain ⟨g, b, hb, -, hg, hused, -⟩ := hread hx hn hschema (.inl hvalue)
  exact ⟨_, y, c, hx, hvalue, g, b, hb, hg, hused⟩

end Engine
end LazyQuery
