import LazyQuery.Proofs.Engine.Refusal
import LazyQuery.Proofs.Graph.Producible

/-!
# Results that are lost

A result that is too large for memory is in the store only. When the store is opened anew its table does
not count any more, and the result is lost. From then on its node is produced in the store, whatever the
strategy, and that is possible for statements only: a result of what can be evaluated in memory only has
come into the store because something else needed it there.

* `Reached.anchored`: a base table that is in the store is in memory as well, so that it is never lost.
* `Lost.run`: what can be evaluated in memory only stays lost, since nothing brings it into the store but
  its result in memory.
* `materializeWithin_of_lost` says how a computation goes on with what is lost. If the check for the store
  fails, so does the computation (`unreachable_of_lost`); if the inputs are there, the table is created
  again (`compute_rebuilds`).
* `lost_rebuilt` puts these together.
-/

set_option autoImplicit false

namespace LazyQuery

namespace Site

/-! ## Base tables -/

/-- A base table that has been in the store is in memory. -/
def Anchored (s : Site) : Prop :=
  ∀ i st, s.engine.graph.Has (·.isSource) i → s.known? i = some st →
    st.relational.isSome = true → st.cached.isSome = true

variable {s t : Site} {i : NodeId}

theorem Anchored.move {id : NodeId} (h : s.Anchored) (hm : Move s id t) : t.Anchored := by
  intro i st' hsource hst'
  rw [hm.keeps.graph] at hsource
  have modified {u : Site} {f : NodeState → NodeState} (hu : ∀ i, u.known? i = s.known? i)
      (hst' : (u.modify id f).known? i = some st')
      (hf : ∀ st, i = id → s.known? id = some st →
        (st.relational.isSome = true → st.cached.isSome = true) →
          (f st).relational.isSome = true → (f st).cached.isSome = true) :
      st'.relational.isSome = true → st'.cached.isSome = true := by
    rcases of_known?_modify hst' with ⟨rfl, st, hst, rfl⟩ | ⟨-, hst⟩
    · have hst := (hu i).symm.trans hst
      exact hf st rfl hst (h i st hsource hst)
    · exact h i st' hsource ((hu i).symm.trans hst)
  cases hm with
  | flag | foundTooLarge => exact modified (fun _ => rfl) hst' fun _ _ _ h => h
  | evaluated | readBack => exact modified (fun _ => rfl) hst' fun _ _ _ _ _ => rfl
  | readFailed | storeFailed => exact h i st' hsource hst'
  | loaded m x hu hi =>
    refine modified (fun _ => rfl) hst' fun st _ hst _ _ => ?_
    rwa [inMemory_eq, hst] at hi
  | created m x hu hs =>
    refine modified (fun _ => rfl) hst' fun st hid _ _ _ => ?_
    subst hid
    obtain ⟨n, hn, hstatement⟩ := hs
    have hsource : n.op.isSource = true := hsource.of_node? hn
    rw [Op.isSource_of_hasStatement hstatement] at hsource
    cases hsource

theorem Anchored.moves {bound : NodeId} (h : s.Anchored) (hm : Moves bound s t) : t.Anchored := by
  induction hm with
  | refl => exact h
  | tail _ hm ih =>
    obtain ⟨j, -, hm⟩ := hm
    exact ih.move hm

theorem Anchored.grown (h : s.Anchored) (hs : s.Sound) {g : Graph}
    (hg : s.engine.graph.Adds (s.engine.graph.size, g)) : (s.grown g).Anchored := by
  intro i st hsource hst
  rcases known?_grown hst with hst | rfl
  · have hlt : i < s.engine.graph.size := hs.size ▸ (Array.getElem?_eq_some_iff.1 hst).1
    obtain ⟨n, hn⟩ := Graph.node?_isSome hlt
    exact h i st ⟨n, hn, hsource.of_node? (hg.extends.node hn)⟩ hst
  · exact nofun

theorem Turn.anchored {e : Option NodeId} {x : Option Table} (ht : s.Turn e x t) (hs : s.AtRest)
    (h : s.Anchored) : t.Anchored := by
  cases ht with
  | computed ht => exact h.moves ht.moves
  | built g hg ht => exact (h.grown hs.sound hg).moves ht.moves
  | supplied y g hg m z hw =>
    intro i st hsource hst
    rcases known?_supplied hs.sound hg hst with ⟨-, rfl⟩ | ⟨-, hst⟩
    · exact fun _ => rfl
    · exact h.grown hs.sound (Graph.addSource_adds hg) i st hsource hst
  | @evicted id n _ _ _ hn hsource =>
    intro i st hi hst
    rcases of_known?_modify hst with ⟨rfl, -⟩ | ⟨-, hst⟩
    · have hi : n.op.isSource = true := hi.of_node? hn
      rw [hsource] at hi
      cases hi
    · exact h i st hi hst
  | configured | remounted => exact h

theorem Reached.anchored {P : Site → Prop} {s : Site} (h : Reached P s) : s.Anchored := by
  induction h with
  | start hd h _ =>
    obtain ⟨-, -, -, hstates, -⟩ := Engine.start_spec hd h
    intro i st _ hst
    rw [known?, hstates] at hst
    cases hst
  | step h hst _ ih =>
    cases hst with
    | done o ho => exact ((o.run_ends h.atRest).of_ok ho).anchored h.atRest ih
    | failed o ho => exact ((o.run_ends h.atRest).of_error ho).anchored h.atRest ih
    | elsewhere => exact ih

/-! ## Lost results -/

/-- The result of the node was too large for memory, and its table does not count any more. -/
structure Lost (s : Site) (i : NodeId) : Prop where
  outOfMemory : s.engine.view.outOfMemory i = true
  relational : s.engine.view.relational i = false

theorem Lost.inMemory (h : s.Lost i) (hc : s.Coherent) : s.engine.view.inMemory i = false := by
  obtain ⟨_, hlarge⟩ := exists_tooLarge h.outOfMemory
  exact hlarge.inMemory hc

/-- What can be evaluated in memory only stays lost: it is not there, and is not created in the store. -/
theorem Lost.move {id : NodeId} (h : s.Lost i) (hc : s.Coherent)
    (hf : s.engine.graph.Has (·.isFallback) i) (hm : Move s id t) : t.Lost i := by
  have ho : t.engine.view.outOfMemory i = true := hm.keeps.outOfMemory h.outOfMemory
  refine ⟨ho, Bool.eq_false_iff.2 fun hr => ?_⟩
  obtain ⟨rfl, x, -, ⟨hi, -⟩ | ⟨hstatement, -⟩⟩ := hm.stored h.relational hr
  · obtain ⟨_, hlarge⟩ := exists_tooLarge ho
    rw [hlarge.inMemory (hc.move hm)] at hi
    cases hi
  · obtain ⟨n, hn, hstatement⟩ := hstatement
    have hfallback : n.op.isFallback = true := hf.of_node? hn
    rw [Op.isFallback_of_hasStatement hstatement] at hfallback
    cases hfallback

theorem Lost.moves {bound : NodeId} (h : s.Lost i) (hc : s.Coherent)
    (hf : s.engine.graph.Has (·.isFallback) i) (hm : Moves bound s t) : t.Lost i := by
  induction hm with
  | refl => exact h
  | @tail u v hm hmove ih =>
    obtain ⟨j, -, hmove⟩ := hmove
    have hgraph : u.engine.graph = s.engine.graph := (Moves.keeps hm).graph
    exact ih.move (hc.moves hm) (hgraph ▸ hf) hmove

theorem Lost.turn {e : Option NodeId} {x : Option Table} (h : s.Lost i) (hs : s.Sound) (hc : s.Coherent)
    (hf : s.engine.graph.Has (·.isFallback) i) (ht : s.Turn e x t) : t.Lost i := by
  have hlt : i < s.engine.states.size := hs.size ▸ hf.lt_size
  have grown (g : Graph) : (s.grown g).Lost i := by
    refine ⟨?_, ?_⟩
    · rw [outOfMemory_eq, known?_grown_old hlt]
      exact h.outOfMemory
    · rw [relational_eq, known?_grown_old hlt]
      exact h.relational
  cases ht with
  | computed ht => exact h.moves hc hf ht.moves
  | built g hg ht => exact (grown g).moves (hc.grown g) (hg.extends.has hf) ht.moves
  | supplied y g hg m z hw =>
    have hne : s.engine.graph.size ≠ i := Nat.ne_of_gt hf.lt_size
    have hgen : m.store.generation = s.engine.store.generation := hw.generation
    refine ⟨?_, ?_⟩
    · rw [outOfMemory_eq, supplied, known?_modify_ne hne]
      exact (grown g).outOfMemory
    · rw [relational_eq, supplied, known?_modify_ne hne]
      exact (relational_withMounted (s := s.grown g) hgen i).trans (grown g).relational
  | evicted =>
    exact ⟨(outOfMemory_modify (f := fun st => { st with cached := none }) fun _ => rfl).trans
        h.outOfMemory,
      (relational_modify (f := fun st => { st with cached := none }) fun _ => rfl).trans h.relational⟩
  | configured => exact ⟨h.outOfMemory, h.relational⟩
  | remounted m hd hv hk hg => exact ⟨h.outOfMemory, hs.relational_remounted hg i⟩

/-- **What can be evaluated in memory only stays lost**, whatever the engine is asked for. -/
theorem Lost.run {P : Site → Prop} {base base' : BaseTables} (h : s.Lost i) (hs : s.AtRest)
    (hc : s.Coherent) (hf : s.engine.graph.Has (·.isFallback) i) (ht : Run P s base t base') :
    t.Lost i := by
  have := ht.rec_turn
    (motive := fun t _ => t.Coherent ∧ t.engine.graph.Has (·.isFallback) i ∧ t.Lost i) hs ⟨hc, hf, h⟩
    (fun hu ht _ h => ⟨ht.coherent hu.sound h.1, ht.extends.has h.2.1, h.2.2.turn hu.sound h.1 h.2.1 ht⟩)
    fun _ ⟨hc, hf, h⟩ => ⟨hc, hf, h.outOfMemory, h.relational⟩
  exact this.2.2

/-- Whatever the statement of the node needs is in memory or in the store, but for groupings. -/
def HasInputs (s : Site) (id : NodeId) : Prop :=
  ∀ d, s.engine.graph.Required .relational s.engine.view id d →
    s.engine.graph.Has (·.isContainer) d ∨ s.engine.view.isHeld d = true

end Site

/-- Has an operation of the store failed, or could a table not be made of a result for it? -/
def EngineError.IsOfStore : EngineError → Prop
  | store _ | frame _ => True
  | _ => False

namespace Engine

variable {s t : Site} {id d : NodeId} {n : Node}

theorem onStore_failsOnly {α : Type} (x : StoreM α) {Q : α → Site → Prop}
    (hQ : ∀ a m, Q a (s.withMounted m)) : Ends (onStore x) s Q fun e _ => e.IsOfStore :=
  ends_onStore.2 (ends_iff.2 ⟨fun a m _ => hQ a m, fun _ _ _ => trivial⟩)

/-- A result in memory is loaded into the store, unless the store refuses it. -/
theorem offload_failsOnly (hn : s.engine.graph.node? id = some n)
    (hi : s.engine.view.inMemory id = true) :
    Ends (offload id) s (fun _ _ => True) fun e _ => e.IsOfStore := by
  obtain ⟨st, c, hst, hc⟩ := Site.known?_of_inMemory hi
  rw [offload, ends_bind, ends_ask, Site.cachedValue_of_cached hst hc]
  dsimp only
  rw [ends_bind, ends_node hn, ends_bind, ends_ask]
  cases ht : (liftM (c.value.toTable n.columns) : Except EngineError Table) with
  | error e =>
    obtain ⟨_, -, rfl⟩ := mapError_eq_error.1 ht
    trivial
  | ok t =>
    dsimp only
    rw [ends_bind]
    exact onStore_failsOnly _ fun _ m => (ends_markRelational (by exact hst)).2 trivial

/-- A table is created of what has been supplied, unless the store refuses it. -/
theorem createRelational_failsOnly (hs : s.Sound) (hn : s.engine.graph.node? id = some n)
    (hst : n.op.hasStatement = true)
    (hsup : ∀ d, s.engine.graph.Required .relational s.engine.view id d →
      s.engine.view.relational d = false → s.engine.graph.Supplied s.engine.view d) :
    Ends (createRelational id) s (fun _ _ => True) fun e _ => e.IsOfStore := by
  obtain ⟨st, hst'⟩ := hs.known hn
  obtain ⟨q, hq, -⟩ := Graph.query_spec hs.graph hs.skipsGroupings hn hst hsup
  rw [createRelational, ends_bind, ends_ask, hq]
  change Ends _ s _ _
  rw [ends_bind, ends_node hn, ends_bind]
  refine onStore_failsOnly _ fun _ m => ?_
  rw [ends_bind]
  refine onStore_failsOnly _ fun rows m => ?_
  rw [ends_bind]
  refine (ends_markRelational (by exact hst')).2 ?_
  exact (ends_updateState (Site.known?_modify_self (by exact hst') _)).2 trivial

end Engine

namespace Site

variable {s : Site} {id : NodeId} {n : Node}

/-- What can be written as a statement over results that are there can be produced in the store. -/
theorem HasInputs.producible (h : s.HasInputs id) (hs : s.Sound)
    (hn : s.engine.graph.node? id = some n) (hst : n.op.hasStatement = true) :
    s.engine.graph.Producible .relational s.engine.view id := by
  have required (d : NodeId) (hd : s.engine.graph.Required .relational s.engine.view id d) :
      s.engine.graph.Producible .relational s.engine.view d := by
    induction d using Nat.strongRecOn with
    | _ d ih =>
      rcases h d hd with ⟨m, hm, hc⟩ | hheld
      · -- A grouping is nowhere, so that the walk goes on to its inputs.
        obtain ⟨hi, hr⟩ := hs.skipsGroupings hm hc
        refine .made rfl hm (by rw [Op.runsOn, hc, Bool.or_true]) fun c hcd => ?_
        exact ih c (hs.graph.dep_lt hm hcd) (.step hd hr hi hm hcd)
      · exact .held rfl hheld
  exact .made rfl hn (by rw [Op.runsOn, hst, Bool.true_or]) fun d hd => required d (.input hn hd)

theorem Coherent.isFitting (hc : s.Coherent) : s.engine.view.IsFitting := by
  rintro id ⟨hi, ho⟩
  obtain ⟨_, hlarge⟩ := exists_tooLarge ho
  rw [hlarge.inMemory hc] at hi
  cases hi

/-- The node cannot be computed: the store cannot produce it. -/
def Unreachable (s : Site) (id : NodeId) : Prop :=
  ∃ k, Engine.compute id s = .error (.plan (.backendUnreachable .relational k)) s

end Site

namespace Engine

variable {s : Site} {id : NodeId} {n : Node}

/-- What is lost is produced in the store. -/
theorem materializeWithin_of_lost (h : s.Lost id) (hi : s.engine.view.inMemory id = false)
    (hidle : s.computing id = false) (hn : s.engine.graph.node? id = some n)
    (hc : n.op.isContainer = false) {fuel : Nat} {Q : Unit → Site → Prop}
    {E : EngineError → Site → Prop} :
    Ends (materializeWithin (fuel + 1) id) s Q E ↔
      Ends (produceInStore (materializeWithin fuel) id) (s.modify id (.flagged true))
        (fun a t => Ends (updateState id (.flagged false)) t (fun _ => Q a) E)
        fun e t => Ends (updateState id (.flagged false)) t (fun _ => E e) E := by
  obtain ⟨_, st, hst, ho, -⟩ := Site.exists_tooLarge h.outOfMemory
  have hcached : st.cached = none := Move.cached_of_inMemory hst hi
  have hcomputing : st.computing = false := by rwa [Site.computing, hst] at hidle
  have hbackend : s.engine.backendFor id = .ok .relational := by
    rw [backendFor, if_pos h.outOfMemory]
    rfl
  rw [materializeWithin, ends_bind, ends_node hn, if_neg (by simp [hc]), ends_bind, ends_state hst,
    ends_bind, ends_get, if_neg (by simp [hcached, h.relational]), if_neg (by simp [h.relational]),
    if_neg (by simp [hcomputing]), ends_bind, ends_ask, hbackend]
  change Ends _ s _ _ ↔ _
  rw [ends_bind, ends_updateState hst, ends_finally]
  rfl

/-- What is lost and fails the check for the store cannot be computed, and nothing changes. -/
theorem unreachable_of_lost (hs : s.AtRest) (h : s.Lost id) (hi : s.engine.view.inMemory id = false)
    (hn : s.engine.graph.node? id = some n) (hc : n.op.isContainer = false)
    (hcheck : s.engine.graph.checkComputable id .relational s.engine.view ≠ .ok ()) :
    s.Unreachable id := by
  obtain ⟨st, hst⟩ := hs.sound.known hn
  have hcomputing : st.computing = false := by
    have := hs.idle id
    rwa [Site.computing, hst] at this
  obtain ⟨e, he⟩ : ∃ e, s.engine.graph.checkComputable id .relational s.engine.view = .error e := by
    cases he : s.engine.graph.checkComputable id .relational s.engine.view with
    | ok _ => exact absurd he hcheck
    | error e => exact ⟨e, rfl⟩
  obtain ⟨k, rfl⟩ := Graph.check_error hs.sound.graph hn he
  have refused : Ends (compute id) s (fun _ _ => False) fun e t =>
      t = s ∧ e = .plan (.backendUnreachable .relational k) := by
    rw [compute, materialize, ends_bind, ends_bind, ends_get,
      materializeWithin_of_lost h hi (hs.idle id) hn hc, produceInStore, ends_bind, requirements, ends_ask,
      Site.view_flagged, show (s.modify id (.flagged true)).engine.graph.checkComputable id .relational
        s.engine.view = _ from he]
    change Ends (updateState id (.flagged false)) (s.modify id (.flagged true)) _ _
    -- The flag that was set is cleared, as it was before.
    rw [ends_updateState (Site.known?_modify_self hst _), Site.modify_modify,
      Site.modify_of_known? hst (by rw [NodeState.flagged, NodeState.flagged, ← hcomputing])]
    exact ⟨rfl, rfl⟩
  obtain ⟨e, t, hx, rfl, rfl⟩ := refused.exists_error
  exact ⟨k, hx⟩

/-- A node whose inputs are there is created in the store, unless the store refuses it. -/
theorem produceInStore_failsOnly {materialize : NodeId → EngineM Unit} (hM : Materializes materialize id)
    (hs : s.Sound) (hv : s.engine.view.IsFitting) (hn : s.engine.graph.node? id = some n)
    (hst : n.op.hasStatement = true) (hidle : ∀ j, j < id → s.computing j = false) (h : s.Lost id)
    (hi : s.engine.view.inMemory id = false) (hinputs : s.HasInputs id) :
    Ends (produceInStore materialize id) s (fun _ _ => True) fun e _ => e.IsOfStore := by
  have hcheck := Graph.check_of_producible (b := .relational) hs.graph hv hn h.relational hi
    (hinputs.producible hs hn hst)
  obtain ⟨order, horder, ho⟩ := Graph.dependencyOrder_spec hs.graph hn .relational s.engine.view
  have hu : s.MayUseStore := .inr ⟨id, h.outOfMemory⟩
  have listed : Ends (requirements id .relational) s (fun r t => order = r ∧ s = t) fun _ _ => False := by
    rw [requirements, ends_ask, hcheck, horder]
    exact ⟨rfl, rfl⟩
  have held {d : NodeId} (hd : d ∈ order) :
      s.engine.graph.Has (·.isContainer) d ∨ s.engine.view.inMemory d = true := by
    obtain ⟨hreq, hr⟩ := (ho.mem_iff d).1 hd
    refine (hinputs d hreq).imp_right fun hheld => ?_
    rw [View.isHeld, Bool.or_eq_true] at hheld
    exact hheld.resolve_left fun h => by simp [show s.engine.view.relational d = false from hr] at h
  rw [produceInStore]
  refine listed.andThen ?_ fun _ _ h => h.elim
  rintro _ _ ⟨rfl, rfl⟩
  refine (Ends.forM (E := fun e _ => e.IsOfStore) (I := fun rest u => ∃ before, order = before ++ rest ∧
    Supplying s id before u) ⟨[], rfl, .refl _ _, fun _ _ => rfl, by simp⟩ ?_).andThen ?_
    fun _ _ he => he
  · rintro d rest u ⟨before, hsplit, hsup⟩
    have hmem : d ∈ order := by simp [hsplit]
    obtain ⟨m, hm⟩ := ho.exists_node hs.graph hn (List.mem_append_left _ hmem)
    have hk := hsup.progress.keeps
    refine ((supply_ends hM hs hu hidle ho (fun d hd => ?_) hsplit hsup).and
      (supply_of_inMemory (n := m) (by rwa [hk.graph])
        ((held hmem).imp (fun hc => hc.of_node? hm) hk.inMemory) trivial
        fun hd => offload_failsOnly (n := m) (by rwa [hk.graph]) hd)).mono ?_ fun _ _ he => he.2
    · exact Graph.computable_of_check hcheck horder d (List.mem_append_left _ hd)
    · exact fun _ v hv => ⟨before ++ [d], by simp [hsplit], hv.1⟩
  · rintro - u ⟨before, hsplit, hsup⟩
    rw [List.append_nil] at hsplit
    subst hsplit
    have hk := hsup.progress.keeps
    have hnu : u.engine.graph.node? id = some n := by rwa [hk.graph]
    refine ((neutral_createRelational u).and (createRelational_failsOnly (hsup.progress.sound hs) hnu hst
      fun d hd hr => ?_)).andThen ?_ fun _ _ he => he.2
    · rw [hk.graph]
      exact hsup.supplied hs (hsup.mem_of_required ho hd hr)
    · rintro - v ⟨hv, -⟩
      rw [ends_bind, ends_get, hv.outOfMemory, hk.outOfMemory h.outOfMemory, if_pos rfl]
      trivial

theorem materializeWithin_failsOnly {fuel : Nat} (hs : s.AtRest) (hcoh : s.Coherent) (h : s.Lost id)
    (hid : id ≤ fuel) (hn : s.engine.graph.node? id = some n) (hst : n.op.hasStatement = true)
    (hinputs : s.HasInputs id) :
    Ends (materializeWithin (fuel + 1) id) s (fun _ _ => True) fun e _ => e.IsOfStore := by
  have hi := h.inMemory hcoh
  have hc := Op.isContainer_of_hasStatement hst
  have start : Move s id (s.modify id (.flagged true)) := .flag true
  have hsound := start.sound hs.sound
  have hview := s.view_flagged id true
  have hM : Materializes (materializeWithin fuel) id := Materializes.mono (materializeWithin_ends fuel) hid
  have hidle (j : NodeId) (hj : j < id) : (s.modify id (.flagged true)).computing j = false := by
    rw [Site.computing_modify_ne (Nat.ne_of_gt hj)]
    exact hs.idle j
  have hlost : (s.modify id (.flagged true)).Lost id := ⟨hview ▸ h.outOfMemory, hview ▸ h.relational⟩
  rw [materializeWithin_of_lost h hi (hs.idle id) hn hc]
  have created := produceInStore_failsOnly hM hsound (hview ▸ hcoh.isFitting) hn hst hidle hlost
    (by rwa [hview]) fun d hd => by
      rw [hview] at hd ⊢
      exact hinputs d hd
  refine ((produceInStore_ends hM hsound hn hc (.inr ⟨id, hlost.outOfMemory⟩) hidle (by rwa [hview])
    hlost.relational).and created).mono ?_ ?_
  · rintro - t ⟨⟨hp, -⟩, -⟩
    obtain ⟨_, hst'⟩ := (hp.sound hsound).known (hp.keeps.graph ▸ hn)
    exact (ends_updateState hst').2 trivial
  · rintro e t ⟨⟨hp, -⟩, he⟩
    obtain ⟨_, hst'⟩ := (hp.sound hsound).known (hp.keeps.graph ▸ hn)
    exact (ends_updateState hst').2 he

/-- **What is lost is created in the store again** from inputs that are there, unless the store refuses it.
It is refused as too large, now as before. -/
theorem compute_rebuilds (hs : s.AtRest) (hcoh : s.Coherent) (h : s.Lost id)
    (hn : s.engine.graph.node? id = some n) (hst : n.op.hasStatement = true)
    (hinputs : s.HasInputs id) :
    Ends (compute id) s (fun _ _ => False) fun e t => t.Blames id e ∨ e.IsOfStore := by
  have hc := Op.isContainer_of_hasStatement hst
  have hlt := Graph.lt_size_of_node? hn
  rw [compute, materialize, ends_bind, ends_bind, ends_get]
  refine ((materializeWithin_ends _ (Nat.lt_succ_of_lt hlt) hs.sound hn hc fun j _ => hs.idle j).and
    (materializeWithin_failsOnly hs hcoh h (Nat.le_of_lt hlt) hn hst hinputs)).mono ?_
    fun _ _ he => .inr he.2
  rintro - t ⟨⟨hp, hsettled⟩, -⟩
  have ho := hp.keeps.outOfMemory h.outOfMemory
  obtain ⟨_, hlarge⟩ := Site.exists_tooLarge ho
  have hi := hlarge.inMemory (hcoh.moves hp.moves)
  have hr := (hsettled.resolve_left (by simp [hi])).2
  have hn' : t.engine.graph.node? id = some n := by rwa [hp.keeps.graph]
  obtain ⟨st, hst', ho', -⟩ := hlarge
  rw [ends_bind, ends_state hst', Move.cached_of_inMemory hst' hi]
  dsimp only
  rw [ends_tooLarge hst' hn']
  exact .inl ⟨n, st, hn', hst', ho', hr, rfl⟩

/-- What is too large for memory is the result of a statement, or of what can be evaluated in memory only:
base tables stay there, and groupings have no result. -/
theorem hasStatement_of_tooLarge (hs : s.AtRest) (hcoh : s.Coherent) (ha : s.Anchored)
    (hn : s.engine.graph.node? id = some n) (ho : s.engine.view.outOfMemory id = true) :
    n.op.isContainer = false ∧ (n.op.hasStatement = true ∨ n.op.isFallback = true) := by
  obtain ⟨_, st, hst, ho, -⟩ := Site.exists_tooLarge ho
  have hstored := (hcoh id st hst).stored ho
  have hc : n.op.isContainer = false := by
    rw [Bool.eq_false_iff]
    intro hc
    rw [(hs.sound.grouping hn hc hst).2] at hstored
    cases hstored
  refine ⟨hc, Op.hasStatement_or_isFallback ?_ hc⟩
  rw [Bool.eq_false_iff]
  intro hsource
  rw [(hcoh id st hst).fits (ha id st ⟨n, hn, hsource⟩ hst hstored)] at ho
  cases ho

/-- What is lost passes the check for the store if it is written as a statement whose inputs can be produced
there. -/
theorem check_of_lost (hs : s.AtRest) (hcoh : s.Coherent) (h : s.Lost id)
    (hn : s.engine.graph.node? id = some n) (hc : n.op.isContainer = false) :
    s.engine.graph.checkComputable id .relational s.engine.view = .ok () ↔
      n.op.hasStatement = true ∧
        ∀ d ∈ n.deps .relational, s.engine.graph.Producible .relational s.engine.view d := by
  have hi := h.inMemory hcoh
  have hruns : n.op.runsOn .relational = n.op.hasStatement := by rw [Op.runsOn, hc, Bool.or_false]
  constructor
  · intro hcheck
    have hp := Graph.producible_of_check hs.sound.graph hcoh.isFitting hn hcheck
    obtain ⟨-, hheld | ⟨hop, hd⟩⟩ := (Graph.producible_iff hn).1 hp
    · simp [View.isHeld, hi, h.relational] at hheld
    · exact ⟨hruns ▸ hop, hd⟩
  · rintro ⟨hst, hd⟩
    exact Graph.check_of_producible (b := .relational) hs.sound.graph hcoh.isFitting hn h.relational hi
      (.made rfl hn (hruns.trans hst) hd)

/-- **What becomes of results that were too large.** They are results of statements or of what can be
evaluated in memory only, but no base tables. A result that is lost can be produced in the store exactly
if it is that of a statement whose inputs can be; otherwise it cannot be reached. From inputs that are
there the result of a statement is created again, unless the store refuses it. What can be evaluated in
memory only is out of reach forever, whatever the engine is asked for. -/
theorem lost_rebuilt (hs : Site.Reached (fun _ => True) s) (hn : s.engine.graph.node? id = some n)
    (ho : s.engine.view.outOfMemory id = true) :
    (n.op.hasStatement = true ∨ n.op.isFallback = true) ∧
      (s.engine.view.relational id = false →
        (s.engine.graph.checkComputable id .relational s.engine.view = .ok () ↔
          n.op.hasStatement = true ∧
            ∀ d ∈ n.deps .relational, s.engine.graph.Producible .relational s.engine.view d) ∧
        (s.engine.graph.checkComputable id .relational s.engine.view ≠ .ok () → s.Unreachable id) ∧
        (n.op.hasStatement = true → s.HasInputs id →
          Ends (compute id) s (fun _ _ => False) fun e t => t.Blames id e ∨ e.IsOfStore) ∧
        (n.op.isFallback = true → ∀ {base u base'}, Site.Run (fun _ => True) s base u base' →
          u.Unreachable id)) := by
  have hrest := hs.atRest
  have hcoh := hs.coherent
  obtain ⟨hc, hkind⟩ := hasStatement_of_tooLarge hrest hcoh hs.anchored hn ho
  refine ⟨hkind, fun hr => ?_⟩
  have hlost : s.Lost id := ⟨ho, hr⟩
  refine ⟨check_of_lost hrest hcoh hlost hn hc,
    unreachable_of_lost hrest hlost (hlost.inMemory hcoh) hn hc,
    fun hst hinputs => compute_rebuilds hrest hcoh hlost hn hst hinputs, fun hf base u base' hrun => ?_⟩
  have hu := hlost.run hrest hcoh ⟨n, hn, hf⟩ hrun
  have hcoh' := hrun.coherent hrest hcoh
  have hn' := (hrun.grows hrest).1.node hn
  refine unreachable_of_lost (hrun.atRest hrest) hu (hu.inMemory hcoh') hn' hc fun hcheck => ?_
  have hst := ((check_of_lost (hrun.atRest hrest) hcoh' hu hn' hc).1 hcheck).1
  rw [Op.isFallback_of_hasStatement hst] at hf
  cases hf

/-- A base table and a supplied function of it, whose result has come into the store because a limit of it
was computed there, and was too large when it was to be read back. Then the store is opened anew. -/
theorem lost_rebuilt_never : ∃ s, Site.Reached (fun _ => True) s ∧ s.engine.view.inMemory 0 = true ∧
    s.engine.view.outOfMemory 1 = true ∧
      ∀ {base u base'}, Site.Run (fun _ => True) s base u base' → u.Unreachable 1 := by
  have run : ∃ s₀,
      start .empty "a" ((Config.standard.withStrategy .always).withMemoryCap 0) = .ok s₀ ∧
        ∃ s, s = s₀.after [.addTable ⟨[⟨"k", [.int 1]⟩]⟩,
          .build (.apply 0 "same" ⟨[⟨"k", .int64, false⟩]⟩ .ok), .build (.limit 1 1), .compute 1,
          .compute 2, .evict 1, .compute 1, .setDatabase (.temporary 1) false] ∧
        s.engine.view.inMemory 0 = true ∧ s.engine.view.outOfMemory 1 = true ∧
        s.engine.view.relational 1 = false ∧
        (s.engine.graph.node? 1).any (·.op.isFallback) = true :=
    ⟨_, rfl, _, rfl, by decide +kernel⟩
  obtain ⟨s₀, hstart, s, hs, hi, ho, hr, hf⟩ := run
  have hreached : Site.Reached (fun _ => True) s := hs ▸ .after (.start Disk.valid_empty hstart trivial) _
  obtain ⟨n, hn, hf⟩ := Option.any_eq_true _ _ |>.1 hf
  exact ⟨s, hreached, hi, ho, ((lost_rebuilt hreached hn ho).2 hr).2.2.2 hf⟩

end Engine
end LazyQuery
