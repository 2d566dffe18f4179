import LazyQuery.Proofs.Engine.Meaning

/-!
# What is known of a node

What an engine knows of a node changes by small steps: `NodeState.Step` lists them, and `Move.known`
says that a move takes one. Between operations all that is known of a node fits together.

* `NodeState.Coherent` is what every step keeps: a result in memory was not too large for it, a result
  that was too large has been in the store, and what is in memory or has been in the store was counted.
* `Turn.known` says what is never forgotten: that a result was too large, and a result in memory unless
  it is evicted.
* `Site.Orderly` is what holds between operations, and `Engine.run_orderly` says that it does, whatever
  has been asked of the engine and whether it succeeded.
-/

set_option autoImplicit false

namespace LazyQuery

/-! ## Single nodes -/

namespace NodeState

/-- What a move can do to what is known of a node. -/
inductive Step (st : NodeState) : NodeState → Prop
  | flagged (b : Bool) : Step st (st.flagged b)
  | kept (rows : UInt64) (value : Result) (g : Guard) (hc : st.cached = none)
      (ho : st.outOfMemory = false) : Step st (st.keeping rows value g)
  | tooLarge (rows estimated : UInt64) (hc : st.cached = none)
      (hr : st.relational.isSome = true) (ho : st.outOfMemory = false) :
      Step st { st with outOfMemory := true, estimated := estimated, rows := some rows }
  | loaded (generation : Nat) (hc : st.cached.isSome = true) : Step st (st.marked generation)
  | created (generation : Nat) (rows : UInt64) :
      Step st { st.marked generation with rows := some rows }

/-- What is known of a node fits together. -/
structure Coherent (st : NodeState) : Prop where
  fits : st.cached.isSome = true → st.outOfMemory = false
  stored : st.outOfMemory = true → st.relational.isSome = true
  counted : st.cached.isSome = true ∨ st.relational.isSome = true → st.rows.isSome = true

variable {st st' : NodeState}

theorem coherent_fresh : fresh.Coherent := ⟨fun _ => rfl, nofun, by rintro (h | h) <;> cases h⟩

theorem Coherent.step (h : st.Coherent) (hs : st.Step st') : st'.Coherent := by
  cases hs with
  | flagged => exact ⟨h.fits, h.stored, h.counted⟩
  | kept rows value g hc ho => exact ⟨fun _ => ho, h.stored, fun _ => rfl⟩
  | tooLarge rows estimated hc hr =>
    refine ⟨fun h => ?_, fun _ => hr, fun _ => rfl⟩
    rw [show st.cached = none from hc] at h
    cases h
  | loaded generation hc => exact ⟨h.fits, fun _ => rfl, fun _ => h.counted (.inl hc)⟩
  | created => exact ⟨h.fits, fun _ => rfl, fun _ => rfl⟩

/-- Giving up a result leaves what is known coherent. -/
theorem Coherent.evicted (h : st.Coherent) : Coherent { st with cached := none } :=
  ⟨nofun, h.stored, fun hr => h.counted (.inr (hr.resolve_left nofun))⟩

end NodeState

/-! ## Moves -/

/-- Every move takes one step at most, at its own node. -/
theorem Move.known {s t : Site} {id : NodeId} (h : Move s id t) {i : NodeId} {st' : NodeState}
    (hst : t.known? i = some st') : ∃ st, s.known? i = some st ∧ (st' = st ∨ st.Step st') := by
  have modified {u : Site} {f : NodeState → NodeState} (hu : ∀ i, u.known? i = s.known? i)
      (hst : (u.modify id f).known? i = some st')
      (hf : ∀ st, s.known? id = some st → st.Step (f st)) :
      ∃ st, s.known? i = some st ∧ (st' = st ∨ st.Step st') := by
    rcases Site.of_known?_modify hst with ⟨rfl, st, hold, rfl⟩ | ⟨-, hst⟩
    · have hold := (hu i).symm.trans hold
      exact ⟨st, hold, .inr (hf st hold)⟩
    · exact ⟨st', (hu i).symm.trans hst, .inl rfl⟩
  have fits {st : NodeState} (hst : s.known? id = some st)
      (ho : s.engine.view.outOfMemory id = false) : st.outOfMemory = false := by
    rwa [Site.outOfMemory_eq, hst] at ho
  cases h with
  | flag b => exact modified (fun _ => rfl) hst fun st _ => .flagged b
  | evaluated value _ hi hv hr ho =>
    exact modified (fun _ => rfl) hst fun st h => .kept _ _ _ (cached_of_inMemory h hi) (fits h ho)
  | foundTooLarge rows estimated hi hr hn ho =>
    refine modified (fun _ => rfl) hst fun st h =>
      .tooLarge _ _ (cached_of_inMemory h hi) ?_ (fits h ho)
    rw [Site.relational_eq, h, Option.any_some, beq_iff_eq] at hr
    rw [hr]
    rfl
  | readFailed | storeFailed => exact ⟨st', hst, .inl rfl⟩
  | readBack rows estimated value g b m hi hr ha hb hd hw ho =>
    exact modified (fun _ => rfl) hst fun st h => .kept _ _ _ (cached_of_inMemory h hi) (fits h ho)
  | loaded m x hu hi =>
    refine modified (fun _ => rfl) hst fun st h => .loaded _ ?_
    rwa [Site.inMemory_eq, h] at hi
  | created m x => exact modified (fun _ => rfl) hst fun st _ => .created _ _

namespace Site

/-- What is known of every node fits together. -/
def Coherent (s : Site) : Prop := ∀ i st, s.known? i = some st → st.Coherent

variable {s t : Site} {e : Option NodeId} {x : Option Table} {i : NodeId} {st : NodeState}

theorem Coherent.move {id : NodeId} (h : s.Coherent) (hm : Move s id t) : t.Coherent := by
  intro i st' hst
  obtain ⟨st, hst, rfl | hstep⟩ := hm.known hst
  · exact h i st' hst
  · exact (h i st hst).step hstep

theorem Coherent.moves {bound : NodeId} (h : s.Coherent) (hm : Moves bound s t) : t.Coherent := by
  induction hm with
  | refl => exact h
  | tail _ hm ih =>
    obtain ⟨i, -, hm⟩ := hm
    exact ih.move hm

theorem Coherent.grown (h : s.Coherent) (g : Graph) : (s.grown g).Coherent := by
  intro i st hst
  rcases known?_grown hst with hst | rfl
  · exact h i st hst
  · exact NodeState.coherent_fresh

/-! ## Operations -/

theorem Turn.coherent (h : s.Turn e x t) (hs : s.Sound) (hc : s.Coherent) : t.Coherent := by
  cases h with
  | computed h => exact hc.moves h.moves
  | built g hg h => exact (hc.grown g).moves h.moves
  | supplied y g hg m z hw =>
    intro i st hst
    rcases known?_supplied hs hg hst with ⟨-, rfl⟩ | ⟨-, hst⟩
    · exact ⟨fun _ => rfl, fun _ => rfl, fun _ => rfl⟩
    · exact hc.grown g i st hst
  | evicted =>
    intro i st' hst'
    rcases of_known?_modify hst' with ⟨rfl, st, hst, rfl⟩ | ⟨-, hst⟩
    · exact (hc i st hst).evicted
    · exact hc i st' hst
  | configured => exact hc
  | remounted => exact hc

/-- **What an operation never forgets** of a node: that its result was too large, and its result in
memory, unless that is given up. Base tables are not given up. -/
theorem Turn.known (h : s.Turn e x t) (hs : s.AtRest) (hst : s.known? i = some st) :
    ∃ st', t.known? i = some st' ∧ (st.outOfMemory = true → st'.outOfMemory = true) ∧
      ∀ c, st.cached = some c →
        st'.cached = some c ∨ e = some i ∧ ¬s.engine.graph.Has (·.isSource) i := by
  have hi : i < s.engine.states.size := (Array.getElem?_eq_some_iff.1 hst).1
  have moved {u : Site} {bound : NodeId} (hu : u.known? i = s.known? i) (h : u.Progress bound t) :
      ∃ st', t.known? i = some st' ∧ (st.outOfMemory = true → st'.outOfMemory = true) ∧
        ∀ c, st.cached = some c →
          st'.cached = some c ∨ e = some i ∧ ¬s.engine.graph.Has (·.isSource) i := by
    obtain ⟨st', hst', hgrows⟩ := h.keeps.grows (hu.trans hst)
    exact ⟨st', hst', hgrows.outOfMemory, fun c hc => .inl (hgrows.cached c hc)⟩
  cases h with
  | computed h => exact moved rfl h
  | built g hg h => exact moved (known?_grown_old hi) h
  | supplied y g hg m z hw =>
    refine ⟨st, ?_, fun h => h, fun c hc => .inl hc⟩
    have hne : s.engine.graph.size ≠ i := Nat.ne_of_gt (hs.sound.size ▸ hi)
    exact (known?_modify_ne hne _).trans ((known?_grown_old hi).trans hst)
  | @evicted id n st₀ c₀ hid hn hsource hst₀ hc₀ =>
    by_cases hne : id = i
    · subst hne
      refine ⟨_, known?_modify_self (by exact hst) _, fun h => h, fun c hc => .inr ⟨hid, ?_⟩⟩
      rintro ⟨m, hm, hsource'⟩
      rw [hn, Option.some.injEq] at hm
      subst hm
      rw [hsource] at hsource'
      cases hsource'
    · exact ⟨st, (known?_modify_ne hne _).trans hst, fun h => h, fun c hc => .inl hc⟩
  | configured => exact ⟨st, hst, fun h => h, fun c hc => .inl hc⟩
  | remounted => exact ⟨st, hst, fun h => h, fun c hc => .inl hc⟩

/-- The result of the node is in memory. -/
def Holds (s : Site) (i : NodeId) (v : Result) : Prop :=
  ∃ st c, s.known? i = some st ∧ st.cached = some c ∧ c.value = v

/-- A result stays in memory unless it is given up. -/
theorem Holds.turn {v : Result} (hv : s.Holds i v) (hs : s.AtRest) (h : s.Turn e x t)
    (hne : ¬(e = some i ∧ ¬s.engine.graph.Has (·.isSource) i)) : t.Holds i v := by
  obtain ⟨st, c, hst, hc, hv⟩ := hv
  obtain ⟨st', hst', -, hkept⟩ := h.known hs hst
  exact ⟨st', c, hst', (hkept c hc).resolve_right hne, hv⟩

/-- Base tables are in memory. -/
def Based (s : Site) (base : BaseTables) : Prop :=
  ∀ i y, base i = some y → s.engine.graph.Has (·.isSource) i ∧ s.Holds i y.asBase

variable {base base' : BaseTables}

theorem Based.keep (hb : s.Based base) (hs : s.AtRest) (h : s.Turn e x t) : t.Based base := by
  intro i y hy
  obtain ⟨hsource, hv⟩ := hb i y hy
  exact ⟨h.extends.has hsource, hv.turn hs h fun hgone => hgone.2 hsource⟩

theorem Based.turn (hb : s.Based base) (hs : s.AtRest) (h : s.Turn e x t) :
    t.Based (s.record base x) := by
  have old := hb.keep hs h
  cases h with
  | supplied y g hg m z hw ht hx =>
    intro i z hz
    by_cases hi : i = s.engine.graph.size
    · subst hi
      rw [record, Function.update_self, Option.some.injEq] at hz
      subst hz
      refine ⟨?_, _, _, known?_modify_self (by exact known?_grown_self hs.sound (Graph.addSource_adds hg)) _,
        rfl, rfl⟩
      obtain rfl := Graph.eq_push_of_addSource hg
      exact ⟨_, Graph.node?_push.2 (.inr ⟨rfl, rfl⟩), rfl⟩
    · rw [record, Function.update_of_ne hi] at hz
      exact old i z hz
  | computed | built | evicted | configured | remounted => exact old

/-! ## Runs -/

/-- What is known of the nodes between operations, given the base tables that have been added. -/
structure Orderly (s : Site) (base : BaseTables) : Prop where
  /-- No node is flagged as being computed. -/
  idle : ∀ i, s.computing i = false
  fits : ∀ {i st}, s.known? i = some st → st.cached.isSome = true → st.outOfMemory = false
  grouping : ∀ {i n st}, s.engine.graph.node? i = some n → n.op.isContainer = true →
    s.known? i = some st → st.cached = none ∧ st.relational = none ∧ st.outOfMemory = false
  counted : ∀ {i st}, s.known? i = some st →
    st.cached.isSome = true ∨ st.relational.isSome = true → st.rows.isSome = true
  marker_le : ∀ {i st k}, s.known? i = some st → st.relational = some k →
    k ≤ s.engine.store.generation
  based : ∀ {i y}, base i = some y → s.Holds i y.asBase

theorem AtRest.orderly (hs : s.AtRest) (hc : s.Coherent) (hb : s.Based base) : s.Orderly base where
  idle := hs.idle
  fits hst := (hc _ _ hst).fits
  grouping hn hcont hst := by
    obtain ⟨hcached, hr⟩ := hs.sound.grouping hn hcont hst
    refine ⟨hcached, hr, Bool.eq_false_iff.2 fun ho => ?_⟩
    have := (hc _ _ hst).stored ho
    rw [hr] at this
    cases this
  counted hst := (hc _ _ hst).counted
  marker_le := hs.sound.marker_le
  based h := (hb _ _ h).2

namespace Run

variable {P : Site → Prop}

theorem coherent (h : Run P s base t base') (hs : s.AtRest) (hc : s.Coherent) : t.Coherent :=
  h.rec_turn (motive := fun t _ => t.Coherent) hs hc (fun hu ht _ hc => ht.coherent hu.sound hc)
    fun _ hc => hc

theorem based (h : Run P s base t base') (hs : s.AtRest) (hb : s.Based base) : t.Based base' :=
  h.rec_turn (motive := Based) hs hb (fun hu ht _ hb => hb.turn hu ht) fun _ hb => hb

/-- That a result was too large is never forgotten. -/
theorem outOfMemory (h : Run P s base t base') (hs : s.AtRest) (hst : s.known? i = some st)
    (ho : st.outOfMemory = true) : ∃ st', t.known? i = some st' ∧ st'.outOfMemory = true := by
  refine h.rec_turn (motive := fun t _ => ∃ st', t.known? i = some st' ∧ st'.outOfMemory = true) hs
    ⟨st, hst, ho⟩ (fun hu ht _ hk => ?_) fun _ hk => hk
  obtain ⟨st₁, hst₁, ho₁⟩ := hk
  obtain ⟨st₂, hst₂, ho₂, -⟩ := ht.known hu hst₁
  exact ⟨st₂, hst₂, ho₂ ho₁⟩

end Run
end Site

namespace Engine

open Site

theorem start_coherent {disk : Disk} {tag : String} {config : Config} {s : Site}
    (hd : disk.Valid) (h : start disk tag config = .ok s) : s.Coherent := by
  obtain ⟨-, -, -, hstates, -⟩ := start_spec hd h
  intro i st hst
  rw [known?, hstates] at hst
  cases hst

/-- **What is known of the nodes fits together between operations**, whatever has been asked of the
engine and whether it succeeded; and a result that was once too large for memory remains so, and is
never again in memory. -/
theorem run_orderly {disk : Disk} {tag : String} {config : Config} {s₀ s : Site}
    {base : BaseTables} (hd : disk.Valid) (hstart : start disk tag config = .ok s₀)
    (hs : Run (fun _ => True) s₀ (fun _ => none) s base) :
    s.Orderly base ∧
      ∀ {t : Site} {base' : BaseTables}, Run (fun _ => True) s base t base' →
        ∀ {i : NodeId} {st : NodeState}, s.known? i = some st → st.outOfMemory = true →
          ∃ st', t.known? i = some st' ∧ st'.outOfMemory = true ∧ st'.cached = none := by
  have hrest₀ := (start_spec hd hstart).1
  have hrest := hs.atRest hrest₀
  have hc := hs.coherent hrest₀ (start_coherent hd hstart)
  refine ⟨hrest.orderly hc (hs.based hrest₀ nofun), fun ht i st hst ho => ?_⟩
  obtain ⟨st', hst', ho'⟩ := ht.outOfMemory hrest hst ho
  refine ⟨st', hst', ho', Option.not_isSome_iff_eq_none.1 fun hcached => ?_⟩
  rw [(ht.coherent hrest hc i st' hst').fits hcached] at ho'
  cases ho'

theorem run_orderly_supplied : ∃ (s : Site) (base : BaseTables) (t : Table),
    base 0 = some t ∧ s.Orderly base ∧ s.Holds 0 t.asBase := by
  -- A base table is added, and stays when it is to be evicted.
  have runs : ∃ s₀ s base, start .empty "a" (Config.standard.withStrategy .never) = .ok s₀ ∧
      Run (fun _ => True) s₀ (fun _ => none) s base ∧ base 0 = some ⟨[⟨"k", [.int 1]⟩]⟩ :=
    ⟨_, _, _, rfl,
      .step (.step .refl (.done (.addTable ⟨[⟨"k", [.int 1]⟩]⟩) rfl) trivial)
        (.done (.evict 0) rfl) trivial, rfl⟩
  obtain ⟨s₀, s, base, hstart, hs, hbase⟩ := runs
  have h := (run_orderly Disk.valid_empty hstart hs).1
  exact ⟨s, base, _, hbase, h, h.based hbase⟩

end Engine
end LazyQuery
