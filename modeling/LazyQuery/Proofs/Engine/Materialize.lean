import LazyQuery.Proofs.Engine.Results

/-!
# What a materialization does

A materialization is an induction over the nodes: the ancestors that a node needs come before it, so
that their materializations are known when that of the node is looked at. `Materializes` is what is
known of them.

* To produce a node in the store, its ancestors are supplied one after the other (`Supplying`). In the
  end each of them is a grouping, has a table, or will be a named result of the query.
* To produce a node in memory, its ancestors are materialized one after the other, up to the first
  that is too large.

The main result is `materializeWithin_ends`: a node that is no grouping and none of whose ancestors is
under computation is left in memory, or in the store if it is too large; otherwise there is an error
that can be reported.
-/

set_option autoImplicit false

namespace LazyQuery

/-- The result of a node is in memory, or it is too large for memory and in the store. -/
def Site.Settled (s : Site) (id : NodeId) : Prop :=
  s.engine.view.inMemory id = true ∨
    s.engine.view.outOfMemory id = true ∧ s.engine.view.relational id = true

namespace Engine

/-- Nodes below a bound are materialized as they should be. -/
def Materializes (materialize : NodeId → EngineM Unit) (bound : NodeId) : Prop :=
  ∀ {s : Site} {id : NodeId} {n : Node}, id < bound → s.Sound →
    s.engine.graph.node? id = some n → n.op.isContainer = false →
      (∀ j, j ≤ id → s.computing j = false) →
        Ends (materialize id) s (fun _ t => s.Progress (id + 1) t ∧ t.Settled id) (s.Fails id)

variable {materialize : NodeId → EngineM Unit} {s t u : Site} {id dep : NodeId} {n : Node}

/-! ## In the store -/

/-- The first ancestors of a node have been supplied: each is a grouping, has a table, or becomes a
named result because intermediate results are not materialized. In that case nothing more comes into
memory. -/
structure Supplying (s : Site) (id : NodeId) (before : List NodeId) (t : Site) : Prop where
  progress : s.Progress id t
  inMemory : s.engine.config.materializeIntermediates = false →
    ∀ d, t.engine.view.inMemory d = s.engine.view.inMemory d
  done : ∀ d ∈ before, s.engine.graph.Has (·.isContainer) d ∨ t.engine.view.relational d = true ∨
    s.engine.config.materializeIntermediates = false ∧ s.engine.view.inMemory d = false ∧
      s.engine.graph.Has (·.hasStatement) d

theorem Supplying.add {before : List NodeId} (h : Supplying s id before t) (hp : t.Progress id u)
    (hi : s.engine.config.materializeIntermediates = false →
      ∀ d, u.engine.view.inMemory d = t.engine.view.inMemory d)
    (hd : s.engine.graph.Has (·.isContainer) dep ∨ u.engine.view.relational dep = true ∨
      s.engine.config.materializeIntermediates = false ∧ s.engine.view.inMemory dep = false ∧
        s.engine.graph.Has (·.hasStatement) dep) :
    Supplying s id (before ++ [dep]) u where
  progress := h.progress.trans hp
  inMemory hm d := (hi hm d).trans (h.inMemory hm d)
  done d hmem := by
    rcases List.mem_append.1 hmem with hmem | hmem
    · exact (h.done d hmem).imp_right (Or.imp_left hp.keeps.relational)
    · rwa [List.mem_singleton.1 hmem]

/-- What has been supplied will do for a query that needs no more than it. -/
theorem Supplying.supplied {before : List NodeId} (h : Supplying s id before t) (hs : s.Sound)
    {d : NodeId} (hd : d ∈ before) : s.engine.graph.Supplied t.engine.view d := by
  rcases h.done d hd with ⟨n, hn, hc⟩ | hr | ⟨hm, hi, n, hn, hst⟩
  · exact ⟨n, hn, .inl hc⟩
  · obtain ⟨st, hst⟩ := Site.known?_of_relational hr
    have hlt : d < s.engine.graph.size := by
      rw [← hs.size, ← h.progress.keeps.size]
      exact (Array.getElem?_eq_some_iff.1 hst).1
    obtain ⟨n, hn⟩ := Graph.node?_isSome hlt
    exact ⟨n, hn, .inr (.inl hr)⟩
  · exact ⟨n, hn, .inr (.inr ⟨(h.inMemory hm d).trans hi, hst⟩)⟩

/-- Where intermediate results are materialized, what has been supplied has tables. -/
theorem Supplying.isContainer {before : List NodeId} (h : Supplying s id before t)
    (hm : s.engine.config.materializeIntermediates = true) {d : NodeId} (hd : d ∈ before)
    (hr : t.engine.view.relational d = false) : s.engine.graph.Has (·.isContainer) d := by
  rcases h.done d hd with hc | hr' | ⟨hm', -⟩
  · exact hc
  · simp [hr] at hr'
  · simp [hm] at hm'

/-- Once all of the order has been supplied, the node needs nothing else. -/
theorem Supplying.mem_of_required {order before : List NodeId} (h : Supplying s id before t)
    (ho : s.engine.graph.IsOrderOf .relational s.engine.view id order) {d : NodeId}
    (hd : t.engine.graph.Required .relational t.engine.view id d)
    (hr : t.engine.view.relational d = false) : d ∈ order := by
  have hk := h.progress.keeps
  rw [hk.graph] at hd
  refine (ho.mem_iff d).2 ⟨hd.mono (fun c => hk.relational) fun c hc => .inr (hk.inMemory hc), ?_⟩
  exact Bool.eq_false_iff.2 fun h => by simp [hk.relational h] at hr

/-- What a node in the order needs from the store later on is in the order before it, or was in the
store from the start. -/
theorem mem_before_of_required {order before after : List NodeId}
    (ho : s.engine.graph.IsOrderOf .relational s.engine.view id order)
    (hsplit : order = before ++ dep :: after) (hp : s.Progress id t)
    (hi : s.engine.view.inMemory dep = false) {d : NodeId}
    (hd : s.engine.graph.Required .relational t.engine.view dep d)
    (hr : t.engine.view.relational d = false) : d ∈ before := by
  refine ho.before hsplit hi (hd.mono (fun c => hp.keeps.relational) fun c hc => ?_) ?_
  · exact .inr (hp.keeps.inMemory hc)
  · exact Bool.eq_false_iff.2 fun h => by simp [hp.keeps.relational h] at hr

theorem supply_ends (hM : Materializes materialize id) (hs : s.Sound) (hu : s.MayUseStore)
    (hidle : ∀ j, j < id → s.computing j = false) {order before after : List NodeId}
    (ho : s.engine.graph.IsOrderOf .relational s.engine.view id order)
    (hcheck : ∀ d ∈ order, ∃ n, s.engine.graph.node? d = some n ∧
      Graph.computable n .relational s.engine.view [] = true)
    (hsplit : order = before ++ dep :: after) (h : Supplying s id before t) :
    Ends (supply materialize dep) t (fun _ => Supplying s id (before ++ [dep])) (s.Fails id) := by
  have hmem : dep ∈ order := by simp [hsplit]
  obtain ⟨hreq, hrel⟩ := (ho.mem_iff dep).1 hmem
  have hlt : dep < id := hreq.lt hs.graph
  have hk := h.progress.keeps
  have ht := h.progress.sound hs
  have fails {v w : Site} {e : EngineError} (hv : s.Progress id v) (he : v.Fails dep e w) :
      s.Fails id e w :=
    (hv.mono (Nat.le_succ id)).fails
      (he.of_dependsOn (hv.sound hs) (hv.keeps.graph ▸ hreq.dependsOn))
  have hut := hk.mayUseStore hu
  obtain ⟨n, hn, hcomp⟩ := hcheck dep hmem
  have hn' : t.engine.graph.node? dep = some n := by rwa [hk.graph]
  have offloaded {v : Site} (hv : Supplying s id before v) (hi : v.engine.view.inMemory dep = true)
      (hr : ¬v.engine.view.relational dep = true) :
      Ends (offload dep) v (fun _ => Supplying s id (before ++ [dep])) (s.Fails id) := by
    have hkv := hv.progress.keeps
    have hnv : v.engine.graph.node? dep = some n := by rwa [hkv.graph]
    refine (offload_ends (hv.progress.sound hs) hnv (hkv.mayUseStore hu) hi (by simpa using hr)).mono
      ?_ fun e w he => fails hv.progress he
    rintro - w ⟨hp, hrw, hsame⟩
    exact hv.add (hp.mono hlt) (fun _ => hsame) (.inr (.inl hrw))
  rw [supply, ends_bind, ends_node hn', ends_bind, ends_get]
  refine Ends.ite (fun hc => ?_) fun hc => Ends.ite (fun hi => ?_) fun hi => ?_
  · exact h.add (.refl _ _) (fun _ _ => rfl) (.inl ⟨n, hn, hc⟩)
  · refine Ends.ite (fun hr => ?_) fun hr => offloaded h hi hr
    exact h.add (.refl _ _) (fun _ _ => rfl) (.inr (.inl hr))
  rw [Bool.not_eq_true] at hc hi
  have his : s.engine.view.inMemory dep = false :=
    Bool.eq_false_iff.2 fun h => by simp [hk.inMemory h] at hi
  have hid := hs.graph.id_eq hn
  have hst := Graph.hasStatement_of_computable hcomp (hid ▸ hrel) (hid ▸ his) hc
  refine Ends.ite (fun hq => ?_) fun hq => ?_
  · rw [hk.config, Bool.and_eq_true, Bool.not_eq_true'] at hq
    exact h.add (.refl _ _) (fun _ _ => rfl) (.inr (.inr ⟨hq.1, his, n, hn, hst⟩))
  have hm : s.engine.config.materializeIntermediates = true := by
    rw [hk.config, hst, Bool.and_true, Bool.not_eq_true, Bool.not_eq_false'] at hq
    exact hq
  refine Ends.ite (fun ho' => ?_) fun ho' => ?_
  · refine (createRelational_ends ht hn' hst hut hi (fun d hd hr => ?_) (fun _ d hd hr => ?_)
      fun hr => ⟨by rwa [hk.config], ?_⟩).mono ?_ fun e w he => fails h.progress he
    · rw [hk.graph] at hd ⊢
      exact h.supplied hs (mem_before_of_required ho hsplit h.progress his hd hr)
    · rw [hk.graph] at hd ⊢
      exact h.isContainer hm (mem_before_of_required ho hsplit h.progress his hd hr) hr
    · refine (h.progress.moves.relational_new hs hm hrel hr).resolve_left ?_
      rw [hi]
      exact Bool.false_ne_true
    · rintro - w ⟨hp, hrw, hsame⟩
      exact h.add (hp.mono hlt) (fun _ => hsame) (.inr (.inl hrw))
  · refine (hM hlt ht hn' hc fun j hj => ?_).andThen ?_ fun e w he => fails h.progress he
    · rw [h.progress.computing]
      exact hidle j (Nat.lt_of_le_of_lt hj hlt)
    · rintro - w ⟨hp, hsettled⟩
      have hw : Supplying s id before w :=
        ⟨h.progress.trans (hp.mono hlt), fun hm' => by simp [hm] at hm', fun d hd =>
          (h.done d hd).imp_right (Or.imp_left hp.keeps.relational)⟩
      rw [ends_bind, ends_get]
      refine Ends.ite (fun hr => ?_) fun hr => offloaded hw ?_ hr
      · exact hw.add (.refl _ _) (fun _ _ => rfl) (.inr (.inl hr))
      · exact hsettled.resolve_right fun h => hr h.2

theorem requirements_ends (hs : s.Sound) (hn : s.engine.graph.node? id = some n) (b : Backend) :
    Ends (requirements id b) s
      (fun order t => t = s ∧ s.engine.graph.IsOrderOf b s.engine.view id order ∧
        ∀ d ∈ order ++ [id], ∃ n, s.engine.graph.node? d = some n ∧
          Graph.computable n b s.engine.view [] = true)
      (s.Fails id) := by
  obtain ⟨order, horder, ho⟩ := Graph.dependencyOrder_spec hs.graph hn b s.engine.view
  rw [requirements, ends_ask]
  cases hcheck : s.engine.graph.checkComputable id b s.engine.view with
  | error e =>
    obtain ⟨k, rfl⟩ := Graph.check_error hs.graph hn hcheck
    exact s.fails_of_isReportable id (e := .plan (.backendUnreachable b k)) trivial
  | ok _ =>
    rw [horder]
    exact ⟨rfl, ho, Graph.computable_of_check hcheck horder⟩

theorem produceInStore_ends (hM : Materializes materialize id) (hs : s.Sound)
    (hn : s.engine.graph.node? id = some n) (hc : n.op.isContainer = false) (hu : s.MayUseStore)
    (hidle : ∀ j, j < id → s.computing j = false) (hi : s.engine.view.inMemory id = false)
    (hr : s.engine.view.relational id = false) :
    Ends (produceInStore materialize id) s (fun _ t => s.Progress (id + 1) t ∧ t.Settled id)
      (s.Fails id) := by
  have hle := Nat.le_succ id
  rw [produceInStore]
  refine (requirements_ends hs hn _).andThen ?_ fun e t he => he
  rintro order t ⟨rfl, ho, hcheck⟩
  -- What is left of the order tells what has been supplied.
  refine (Ends.forM (E := t.Fails id) (I := fun rest u => ∃ before, order = before ++ rest ∧
    Supplying t id before u) ⟨[], rfl, .refl _ _, fun _ _ => rfl, by simp⟩ ?_).andThen ?_
    fun e u he => he
  · rintro dep rest u ⟨before, hsplit, h⟩
    exact (supply_ends hM hs hu hidle ho (fun d hd => hcheck d (by simp [hd])) hsplit h).mono
      (fun _ v hv => ⟨before ++ [dep], by simp [hsplit], hv⟩) fun e v he => he
  rintro - u ⟨before, hsplit, h⟩
  rw [List.append_nil] at hsplit
  subst hsplit
  have hk := h.progress.keeps
  have hnu : u.engine.graph.node? id = some n := by rwa [hk.graph]
  have known : u.known? id = t.known? id := hk.above id (Nat.le_refl _)
  have hru : u.engine.view.relational id = false := by
    rw [Site.relational_eq, known, hk.generation]
    exact hr
  have hiu : u.engine.view.inMemory id = false := by
    rw [Site.inMemory_eq, known]
    exact hi
  have hst : n.op.hasStatement = true := by
    obtain ⟨m, hm, hcomp⟩ := hcheck id (by simp)
    rw [hn, Option.some.injEq] at hm
    subst hm
    have hid := hs.graph.id_eq hn
    exact Graph.hasStatement_of_computable hcomp (hid ▸ hr) (hid ▸ hi) hc
  refine (createRelational_ends (h.progress.sound hs) hnu hst (hk.mayUseStore hu) hiu
    (fun d hd hrd => ?_) (fun hm d hd hrd => ?_) fun h => ?_).andThen ?_ ?_
  · rw [hk.graph]
    exact h.supplied hs (h.mem_of_required ho hd hrd)
  · rw [hk.graph]
    exact h.isContainer (hk.config ▸ hm) (h.mem_of_required ho hd hrd) hrd
  · simp [hru] at h
  · rintro - v ⟨hp, hrv, hsame⟩
    have hv := (h.progress.mono hle).trans hp
    rw [ends_bind, ends_get]
    refine Ends.ite (fun hov => ?_) fun hov => ?_
    · exact ⟨hv, .inr ⟨hov, hrv⟩⟩
    · refine (readBack_ends (hv.sound hs) (by rwa [hv.keeps.graph]) ((hsame id).trans hiu) hrv
        (by simpa using hov)).mono ?_ fun e w he => hv.fails he
      rintro - w ⟨hpw, hw⟩
      exact ⟨hv.trans hpw, hw.imp_right fun how => ⟨how, hpw.keeps.relational hrv⟩⟩
  · exact fun e v he => (h.progress.mono hle).fails he

/-! ## In memory -/

theorem tooLarge_ends {α : Type} {Q : α → Site → Prop} (hs : s.Sound)
    (hn : s.engine.graph.node? dep = some n) (id : NodeId) :
    Ends (tooLarge dep) s Q (s.Fails id) := by
  obtain ⟨st, hst⟩ := hs.known hn
  rw [ends_tooLarge hst hn]
  exact s.fails_of_isReportable id trivial

/-- Ancestors are materialized in turn, up to the first that is too large. -/
theorem firstTooLarge_ends (hM : Materializes materialize id) (hs : s.Sound)
    (hidle : ∀ j, j < id → s.computing j = false) {order : List NodeId}
    (horder : ∀ d ∈ order, s.engine.graph.DependsOn id d ∧ d < s.engine.graph.size) :
    Ends (firstTooLarge materialize order) s
      (fun r t => s.Progress id t ∧
        match r with
        | none => ∀ d ∈ order,
          s.engine.graph.Has (·.isContainer) d ∨ t.engine.view.inMemory d = true
        | some dep => dep ∈ order ∧ t.engine.view.outOfMemory dep = true)
      (s.Fails id) := by
  induction order generalizing s with
  | nil => exact ⟨.refl _ _, by simp⟩
  | cons dep rest ih =>
    obtain ⟨⟨hdep, hsize⟩, hrest⟩ := List.forall_mem_cons.1 horder
    have hlt : dep < id := hdep.lt hs.graph
    obtain ⟨n, hn⟩ := Graph.node?_isSome hsize
    rw [firstTooLarge, ends_bind, ends_node hn]
    refine Ends.ite (fun hc => ?_) fun hc => ?_
    · refine (ih hs hidle hrest).mono ?_ fun e t he => he
      rintro (_ | d) t ⟨hp, h⟩
      · exact ⟨hp, List.forall_mem_cons.2 ⟨.inl ⟨n, hn, hc⟩, h⟩⟩
      · exact ⟨hp, List.mem_cons_of_mem _ h.1, h.2⟩
    · refine (hM hlt hs hn (by simpa using hc) fun j hj =>
        hidle j (Nat.lt_of_le_of_lt hj hlt)).andThen ?_ fun e t he => he.of_dependsOn hs hdep
      rintro - t ⟨hp, hsettled⟩
      have hp := hp.mono hlt
      rw [ends_bind, ends_get]
      refine Ends.ite (fun hi => ?_) fun hi => ?_
      · refine (ih (hp.sound hs) (fun j hj => (hp.computing j).trans (hidle j hj)) fun d hd => ?_).mono
          ?_ fun e u he => (hp.mono (Nat.le_succ id)).fails he
        · rw [hp.keeps.graph]
          exact hrest d hd
        · rw [hp.keeps.graph]
          rintro (_ | d) u ⟨hp', h⟩
          · exact ⟨hp.trans hp', List.forall_mem_cons.2 ⟨.inr (hp'.keeps.inMemory hi), h⟩⟩
          · exact ⟨hp.trans hp', List.mem_cons_of_mem _ h.1, h.2⟩
      · exact ⟨hp, List.mem_cons_self, (hsettled.resolve_left hi).1⟩

theorem produceInMemory_ends (hM : Materializes materialize id) (hs : s.Sound)
    (hn : s.engine.graph.node? id = some n) (hc : n.op.isContainer = false) (hu : s.MayEvaluate id)
    (hidle : ∀ j, j < id → s.computing j = false) (hi : s.engine.view.inMemory id = false)
    (hr : s.engine.view.relational id = false) (ho : s.engine.view.outOfMemory id = false) :
    Ends (produceInMemory materialize id) s (fun _ t => s.Progress (id + 1) t ∧ t.Settled id)
      (s.Fails id) := by
  have hle := Nat.le_succ id
  rw [produceInMemory]
  refine (requirements_ends hs hn _).andThen ?_ fun e t he => he
  rintro order t ⟨rfl, horder, hcheck⟩
  have hdeps : ∀ d ∈ order, t.engine.graph.DependsOn id d ∧ d < t.engine.graph.size := fun d hd =>
    ⟨((horder.mem_iff d).1 hd).1.dependsOn,
      Nat.lt_trans (horder.lt hs.graph hd) (Graph.lt_size_of_node? hn)⟩
  refine (firstTooLarge_ends hM hs hidle hdeps).andThen ?_ fun e u he => he
  rintro r u ⟨hp, h⟩
  have hk := hp.keeps
  have hnu : u.engine.graph.node? id = some n := by rwa [hk.graph]
  have known : u.known? id = t.known? id := hk.above id (Nat.le_refl _)
  have hiu : u.engine.view.inMemory id = false := by
    rw [Site.inMemory_eq, known]
    exact hi
  have hru : u.engine.view.relational id = false := by
    rw [Site.relational_eq, known, hk.generation]
    exact hr
  have hou : u.engine.view.outOfMemory id = false := by
    rw [Site.outOfMemory_eq, known]
    exact ho
  have fails {e : EngineError} {v : Site} (he : u.Fails id e v) : t.Fails id e v :=
    (hp.mono hle).fails he
  cases r with
  | none =>
    have hsource : n.op.isSource = false := by
      obtain ⟨m, hm, hcomp⟩ := hcheck id (by simp)
      rw [hn, Option.some.injEq] at hm
      subst hm
      have hid := hs.graph.id_eq hn
      exact Graph.isSource_of_computable hcomp (hid ▸ hr) (hid ▸ hi)
    refine (evaluateNode_ends (hp.sound hs) hnu (hk.mayEvaluate hu) hsource hc hiu hru hou fun d hd => ?_).mono
      (fun _ v hv => ⟨(hp.mono hle).trans hv.1, .inl hv.2⟩) fun e v he => fails he
    have hreq := Graph.required_of_mem_reads hs.graph hs.skipsGroupings hn hd
    cases hd' : t.engine.view.inMemory d with
    | true => exact hk.inMemory hd'
    | false =>
      refine (h d ((horder.mem_iff d).2 ⟨hreq, hd'⟩)).resolve_left ?_
      rintro ⟨m, hm, hcont⟩
      obtain ⟨m', hm', hcont'⟩ := (hs.graph.linked hn).has_result hc hd
      rw [hm, Option.some.injEq] at hm'
      subst hm'
      simp [hcont] at hcont'
  | some dep =>
    obtain ⟨hdep, hout⟩ := h
    rw [ends_bind, ends_node hnu, ends_bind, ends_get]
    refine Ends.ite (fun _ => ?_) fun _ => ?_
    · exact (produceInStore_ends hM (hp.sound hs) hnu hc (.inr ⟨dep, hout⟩)
        (fun j hj => (hp.computing j).trans (hidle j hj)) hiu hru).mono
        (fun _ v hv => ⟨(hp.mono hle).trans hv.1, hv.2⟩) fun e v he => fails he
    · obtain ⟨m, hm⟩ := Graph.node?_isSome (hdeps dep hdep).2
      exact (tooLarge_ends (hp.sound hs) (n := m) (by rwa [hk.graph]) id).mono
        (fun _ _ h => h) fun e v he => fails he

/-! ## On the chosen backend -/

/-- The store is chosen only if it may be used, and memory only if the node may be evaluated. -/
theorem chooseBackend_spec (hn : s.engine.graph.node? id = some n) :
    FailsOnly PlanError.IsReportable
        (chooseBackend s.engine.config.strategy s.engine.model s.engine.costContext id) ∧
      (chooseBackend s.engine.config.strategy s.engine.model s.engine.costContext id =
        .ok .relational → s.engine.config.strategy ≠ some .never) ∧
      (chooseBackend s.engine.config.strategy s.engine.model s.engine.costContext id =
        .ok .inMemory → s.MayEvaluate id) := by
  have hnode : s.engine.costContext.graph.node id = .ok n := Graph.node_eq_ok.2 hn
  rw [← and_assoc]
  constructor
  · unfold chooseBackend
    cases s.engine.config.strategy with
    | none => exact ⟨failsOnly_error.2 trivial, by simp⟩
    | some strategy =>
      simp only [hnode, ok_bind]
      split <;> simp [pure_eq_ok]
  · intro h
    by_cases hst : n.op.isTable = true → n.op.hasStatement = false
    · exact .inr ⟨n, hn, hst⟩
    · refine .inl fun halways => ?_
      unfold chooseBackend at h
      rw [halways] at h
      simp only [hnode, ok_bind] at h
      obtain ⟨i, name, op, schema⟩ := n
      cases op <;> first
        | exact hst fun _ => rfl
        | exact hst fun h => absurd h Bool.false_ne_true
        | cases h

theorem backendFor_ends (hs : s.Sound) (hn : s.engine.graph.node? id = some n) :
    Ends (ask fun e => e.backendFor id) s
      (fun b t => t = s ∧ (b = .relational → s.MayUseStore) ∧
        (b = .inMemory → s.MayEvaluate id ∧ s.engine.view.outOfMemory id = false))
      (s.Fails id) := by
  obtain ⟨hfails, hchosen, hchosen'⟩ := chooseBackend_spec hn
  obtain ⟨order, horder, -⟩ :=
    Graph.dependencyOrder_spec hs.graph hn .inMemory s.engine.view
  rw [ends_ask]
  cases hb : (liftM (s.engine.backendFor id) : Except EngineError Backend) with
  | error e =>
    refine s.fails_of_isReportable id (FailsOnly.mapError (P := EngineError.IsReportable) ?_ e hb)
    refine FailsOnly.ite (fun _ => failsOnly_ok _) fun _ => ?_
    rw [Graph.node_eq_ok.2 hn, ok_bind]
    refine hfails.bind fun chosen _ => FailsOnly.ite (fun _ => ?_) fun _ => failsOnly_ok _
    rw [needsTooLarge, horder]
    exact failsOnly_ok _
  | ok b =>
    have hb := mapError_eq_ok.1 hb
    rw [backendFor] at hb
    split at hb
    · rename_i hout
      cases hb
      exact ⟨rfl, fun _ => .inr ⟨id, hout⟩, by simp⟩
    rename_i hout
    rw [Graph.node_eq_ok.2 hn, ok_bind] at hb
    obtain ⟨chosen, hc, hb⟩ := bind_eq_ok.1 hb
    by_cases hr : s.engine.canReroute = true
    · rw [canReroute, beq_iff_eq] at hr
      exact ⟨rfl, fun _ => .inl (by simp [hr]), fun _ => ⟨.inl (by simp [hr]), by simpa using hout⟩⟩
    · simp only [hr, Bool.and_false, Bool.false_and, Bool.false_eq_true, if_false, pure_eq_ok,
        Except.ok.injEq] at hb
      subst hb
      exact ⟨rfl, fun h => .inl (hchosen (h ▸ hc)), fun h => ⟨hchosen' (h ▸ hc), by simpa using hout⟩⟩

theorem produce_ends (hM : Materializes materialize id) (hs : s.Sound)
    (hn : s.engine.graph.node? id = some n) (hc : n.op.isContainer = false) {b : Backend}
    (hu : b = .relational → s.MayUseStore)
    (ho : b = .inMemory → s.MayEvaluate id ∧ s.engine.view.outOfMemory id = false)
    (hidle : ∀ j, j < id → s.computing j = false)
    (hi : s.engine.view.inMemory id = false) (hr : s.engine.view.relational id = false) :
    Ends (produce materialize id b) s (fun _ t => s.Progress (id + 1) t ∧ t.Settled id)
      (s.Fails id) := by
  cases b with
  | inMemory => exact produceInMemory_ends hM hs hn hc (ho rfl).1 hidle hi hr (ho rfl).2
  | relational => exact produceInStore_ends hM hs hn hc (hu rfl) hidle hi hr

/-! ## The induction -/

/-- A node is under computation while it is produced, and no longer. -/
theorem flagged_ends {x : EngineM Unit} (hs : s.Sound) (hn : s.engine.graph.node? id = some n)
    (hidle : s.computing id = false)
    (hx : ∀ u, u = s.modify id (.flagged true) →
      Ends x u (fun _ t => u.Progress (id + 1) t ∧ t.Settled id) (u.Fails id)) :
    Ends (do
        updateState id fun st => { st with computing := true }
        try x finally updateState id fun st => { st with computing := false }) s
      (fun _ t => s.Progress (id + 1) t ∧ t.Settled id) (s.Fails id) := by
  obtain ⟨st, hst⟩ := hs.known hn
  have start : Move s id (s.modify id (.flagged true)) := .flag true
  -- Clearing the flag afterwards leaves every flag as it was.
  have cleared {t : Site}
      (h : (s.modify id (.flagged true)).Progress (id + 1) t) :
      (∃ st', t.known? id = some st') ∧
        s.Progress (id + 1) (t.modify id (.flagged false)) := by
    have hk := start.keeps.trans h.keeps
    obtain ⟨st', hst', -⟩ := hk.grows hst
    refine ⟨⟨st', hst'⟩,
      ((Moves.single start).trans h.moves).tail (Nat.lt_succ_self id) (.flag false), fun i => ?_⟩
    by_cases hi : id = i
    · subst hi
      rw [hidle, Site.computing, Site.known?_modify_self hst']
      rfl
    · rw [Site.computing_modify_ne hi, h.computing i, Site.computing_modify_ne hi]
  rw [ends_bind, ends_updateState hst, ends_finally]
  refine (hx _ rfl).mono ?_ ?_
  · rintro - t ⟨hp, hsettled⟩
    obtain ⟨⟨st', hst'⟩, hpt⟩ := cleared hp
    rw [ends_updateState hst']
    refine ⟨hpt, hsettled.imp (fun h => ?_) fun h => ⟨?_, ?_⟩⟩
    · exact (t.inMemory_flagged id false id).trans h
    · exact (t.outOfMemory_flagged id false id).trans h.1
    · exact (t.relational_flagged id false id).trans h.2
  · rintro e t ⟨hp, he⟩
    obtain ⟨⟨st', hst'⟩, hpt⟩ := cleared hp
    rw [ends_updateState hst']
    exact ⟨hpt, he.flagged id false⟩

theorem Materializes.mono {bound : NodeId} (hM : Materializes materialize bound) (h : id ≤ bound) :
    Materializes materialize id :=
  fun hlt => hM (Nat.lt_of_lt_of_le hlt h)

/-- **A materialization leaves the result in memory, or in the store if it is too large**, unless
there is an error that can be reported. -/
theorem materializeWithin_ends (fuel : Nat) : Materializes (materializeWithin fuel) fuel := by
  induction fuel with
  | zero => exact fun h => absurd h (Nat.not_lt_zero _)
  | succ fuel ih =>
    intro s id n hid hs hn hc hidle
    have hM : Materializes (materializeWithin fuel) id := ih.mono (Nat.le_of_lt_succ hid)
    obtain ⟨st, hst⟩ := hs.known hn
    have hi : s.engine.view.inMemory id = st.cached.isSome := by
      rw [Site.inMemory_eq, hst]
      rfl
    have ho : s.engine.view.outOfMemory id = st.outOfMemory := by
      rw [Site.outOfMemory_eq, hst]
      rfl
    have hcomp : st.computing = false := by
      have := hidle id (Nat.le_refl _)
      rwa [Site.computing, hst] at this
    rw [materializeWithin, ends_bind, ends_node hn, if_neg (by simp [hc]), ends_bind,
      ends_state hst, ends_bind, ends_get, ← hi, ← ho]
    refine Ends.ite (fun h => ?_) fun h => Ends.ite (fun hr => ?_) fun hr => ?_
    · rw [Bool.or_eq_true, Bool.and_eq_true] at h
      exact ⟨.refl _ _, h⟩
    · have hi : s.engine.view.inMemory id = false :=
        Bool.eq_false_iff.2 fun h' => h (by rw [h', Bool.true_or])
      have hfits : s.engine.view.outOfMemory id = false :=
        Bool.eq_false_iff.2 fun h' => h (by rw [h', hr, Bool.true_and, Bool.or_true])
      refine (readBack_ends hs hn hi hr hfits).mono ?_ fun e t he => he
      rintro - t ⟨hp, ht⟩
      exact ⟨hp, ht.imp_right fun ho => ⟨ho, hp.keeps.relational hr⟩⟩
    have hi : s.engine.view.inMemory id = false :=
      Bool.eq_false_iff.2 fun h' => h (by rw [h', Bool.true_or])
    rw [Bool.not_eq_true] at hr
    rw [hcomp]
    refine Ends.andThen (backendFor_ends hs hn) ?_ fun e t he => he
    rintro b t ⟨rfl, hu, ho⟩
    refine flagged_ends hs hn (hidle id (Nat.le_refl _)) fun u hu' => ?_
    have start : Move t id u := hu' ▸ .flag true
    have hk := start.keeps
    refine produce_ends hM (start.sound hs) (by rwa [hk.graph]) hc
      (fun hb => hk.mayUseStore (hu hb)) (fun hb => ?_) (fun j hj => ?_) ?_ ?_
    · refine ⟨hk.mayEvaluate (ho hb).1, ?_⟩
      rw [hu', Site.outOfMemory_flagged, (ho hb).2]
    · rw [hu', Site.computing_modify_ne (Nat.ne_of_gt hj)]
      exact hidle j (Nat.le_of_lt hj)
    · rw [hu', Site.inMemory_flagged, hi]
    · rw [hu', Site.relational_flagged, hr]


/-! ## Whole computations -/

/-- **A computation yields the result, which stays in memory, or an error that can be reported.** -/
theorem compute_ends (hs : s.Sound) (hn : s.engine.graph.node? id = some n)
    (hc : n.op.isContainer = false) (hidle : ∀ j, s.computing j = false) :
    Ends (compute id) s
      (fun v t => s.Progress (id + 1) t ∧ ∃ st c, t.known? id = some st ∧ st.cached = some c ∧
        c.value = v)
      (s.Fails id) := by
  have hlt : id < s.engine.graph.size + 1 := Nat.lt_succ_of_lt (Graph.lt_size_of_node? hn)
  rw [compute, materialize, ends_bind, ends_bind, ends_get]
  refine (materializeWithin_ends _ hlt hs hn hc fun j _ => hidle j).mono ?_ fun e t he => he
  rintro - t ⟨hp, -⟩
  have hn' : t.engine.graph.node? id = some n := by rwa [hp.keeps.graph]
  obtain ⟨st, hst⟩ := (hp.sound hs).known hn'
  rw [ends_bind, ends_state hst]
  cases hcached : st.cached with
  | some c => exact ⟨hp, st, c, hst, hcached, rfl⟩
  | none =>
    exact (tooLarge_ends (hp.sound hs) hn' id).mono (fun _ _ h => h) fun e u he => hp.fails he

end Engine
end LazyQuery
