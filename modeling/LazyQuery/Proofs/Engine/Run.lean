import LazyQuery.Proofs.Engine.Materialize
import LazyQuery.Proofs.Graph.Construction
import LazyQuery.Proofs.Store.Files

/-!
# Runs of an engine

An engine is asked to perform one `Operation` after the other; meanwhile others may change the disk,
but not the tables of this engine (`Site.Elsewhere`).

* `Site.Turn` lists what an operation can do to a site, whether it succeeds or fails, and with it the
  node that may have been evicted and the base table that was added, if one was. `Operation.run_ends`
  says that every operation takes a turn.
* `Site.AtRest` holds of a site between operations, and `Turn.atRest` says that turns keep it.
* `Site.Reached P s` says that a run from a new engine has led to `s`, through sites for which `P`
  holds.
* `Site.after` performs operations one after the other.
-/

set_option autoImplicit false

namespace LazyQuery

/-! ## Operations -/

/-- What an engine can be asked for. -/
inductive Operation
  | build (c : Construction)
  | addTable (t : Table)
  | compute (id : NodeId)
  | evict (id : NodeId)
  | setStrategy (strategy : Option Strategy)
  | setCostModel (model : CostModel)
  | setDatabase (path : DiskPath) (deleteOld : Bool)
  | close (delete : Bool)

namespace Operation

/-- The operation as a program of the engine, without its answer. -/
def run : Operation → EngineM Unit
  | build c => do let _ ← Engine.build fun g => c.call g
  | addTable t => do let _ ← Engine.addTable t
  | compute id => do let _ ← Engine.compute id
  | evict id => do let _ ← Engine.evict id
  | setStrategy strategy =>
    Engine.update fun e => { e with config := { e.config with strategy := strategy } }
  | setCostModel model => Engine.update fun e => { e with model := model }
  | setDatabase path deleteOld => Engine.setDatabase path deleteOld
  | close delete => Engine.close delete

/-- The base table that the operation adds, if it succeeds. -/
def adds : Operation → Option Table
  | addTable t => some t
  | _ => none

/-- The node whose result the operation gives up. -/
def evicts : Operation → Option NodeId
  | evict id => some id
  | _ => none

end Operation

/-! ## What an operation can do -/

/-- Is the name that of a table of the graph's nodes? -/
def Graph.Owns (g : Graph) (name : String) : Prop := ∃ i, Sql.sameName name (g.tableName i) = true

namespace Site

/-- The site with a larger graph, of whose new nodes nothing is known. -/
def grown (s : Site) (g : Graph) : Site :=
  { s with
    engine :=
      { s.engine with
        graph := g
        states :=
          s.engine.states ++ Array.replicate (g.size - s.engine.states.size) NodeState.fresh } }

/-- The site once a base table has been loaded into the store and kept in memory. -/
def supplied (s : Site) (g : Graph) (m : Mounted) (t : Table) : Site :=
  let value := Result.table (t.coerce t.inferSchema)
  ((((s.grown g).withMounted m).withBudget (s.engine.budget.reserve value.footprint)).modify
    s.engine.graph.size fun st =>
      (st.marked m.store.generation).keeping
        (UInt64.ofNat (t.coerce t.inferSchema).rowCount) value ⟨value.footprint, "source"⟩)

/-- What an operation can do to a site, given the node that it may evict, and the base table that it
adds. -/
inductive Turn (s : Site) (evictee : Option NodeId) : Option Table → Site → Prop
  | computed {bound : NodeId} {t : Site} (h : s.Progress bound t) : Turn s evictee none t
  /-- A node has been added. If it was to be a base table, the store may have refused it. -/
  | built (g : Graph) (h : s.engine.graph.Adds (s.engine.graph.size, g)) {bound : NodeId} {t : Site}
      (ht : (s.grown g).Progress bound t) : Turn s evictee none t
  | supplied (t : Table) (g : Graph)
      (hg : s.engine.graph.addSource t.inferSchema = .ok (s.engine.graph.size, g))
      (m : Mounted) (x : StoredTable)
      (hw : s.mounted.Writes (s.engine.graph.tableName s.engine.graph.size) m)
      (ht : m.table? (s.engine.graph.tableName s.engine.graph.size) = some x)
      (hx : x.IsLoaded (t.coerce t.inferSchema) t.inferSchema) :
      Turn s evictee (some t) (s.supplied g m t)
  | evicted {id : NodeId} {n : Node} {st : NodeState} {c : Cached} (hid : evictee = some id)
      (hn : s.engine.graph.node? id = some n) (hs : n.op.isSource = false)
      (hst : s.known? id = some st) (hc : st.cached = some c) :
      Turn s evictee none ((s.withBudget (s.engine.budget.release c.guard)).modify id fun st =>
        { st with cached := none })
  | configured (strategy : Option Strategy) (model : CostModel) :
      Turn s evictee none { s with
        engine :=
          { s.engine with
            config := { s.engine.config with strategy := strategy }
            model := model } }
  | remounted (m : Mounted) (hd : m.disk.Valid) (hv : m.Valid) (hk : s.disk.Keeps m.disk)
      (hg : m.store.generation = s.engine.store.generation + 1) :
      Turn s evictee none (s.withMounted m)

/-- What holds of a site between operations. -/
structure AtRest (s : Site) : Prop where
  sound : s.Sound
  files : s.disk.Valid
  idle : ∀ i, s.computing i = false

variable {s : Site}

/-! ## Larger graphs -/

theorem known?_grown_old {g : Graph} {i : NodeId} (h : i < s.engine.states.size) :
    (s.grown g).known? i = s.known? i :=
  Array.getElem?_append_left h

theorem known?_grown_new {g : Graph} {i : NodeId} {st : NodeState}
    (h : s.engine.states.size ≤ i) (hst : (s.grown g).known? i = some st) : st = .fresh := by
  rw [known?, show (s.grown g).engine.states[i]? =
      (Array.replicate (g.size - s.engine.states.size) NodeState.fresh)[i - s.engine.states.size]?
    from Array.getElem?_append_right h, Array.getElem?_replicate] at hst
  split at hst
  · exact (Option.some.inj hst).symm
  · cases hst

/-- What is known in the larger graph was known before, or it is nothing. -/
theorem known?_grown {g : Graph} {i : NodeId} {st : NodeState}
    (hst : (s.grown g).known? i = some st) : s.known? i = some st ∨ st = .fresh := by
  rcases Nat.lt_or_ge i s.engine.states.size with h | h
  · exact .inl ((known?_grown_old h).symm.trans hst)
  · exact .inr (known?_grown_new h hst)

theorem any_known?_grown {g : Graph} {i : NodeId} {test : NodeState → Bool}
    (ht : test .fresh = false) :
    ((s.grown g).known? i).any test = (s.known? i).any test := by
  rcases Nat.lt_or_ge i s.engine.states.size with h | h
  · rw [known?_grown_old h]
  · rw [show s.known? i = none from Array.getElem?_eq_none h]
    cases hst : (s.grown g).known? i with
    | none => rfl
    | some st => rw [known?_grown_new h hst, Option.any_some, ht, Option.any_none]

theorem Sound.grown (hs : s.Sound) {g : Graph}
    (h : s.engine.graph.Adds (s.engine.graph.size, g)) : (s.grown g).Sound where
  graph := h.wellFormed hs.graph
  size := by
    have hsize : g.size = s.engine.graph.size + 1 := h.size
    change (s.engine.states ++ Array.replicate (g.size - s.engine.states.size) NodeState.fresh).size =
      g.size
    rw [Array.size_append, Array.size_replicate, hs.size, hsize]
    exact Nat.add_sub_of_le (Nat.le_succ _)
  grouping {i n st} hn hc hst := by
    rcases known?_grown hst with hst | rfl
    · have hlt : i < s.engine.graph.size := by
        rw [← hs.size]
        exact (Array.getElem?_eq_some_iff.1 hst).1
      obtain ⟨m, hm⟩ := Graph.node?_isSome hlt
      have := h.extends.node hm
      rw [show g.node? i = some n from hn, Option.some.injEq] at this
      exact hs.grouping hm (this ▸ hc) hst
    · exact ⟨rfl, rfl⟩
  marker_le {i st k} hst hk := by
    rcases known?_grown hst with hst | rfl
    · exact hs.marker_le hst hk
    · cases hk
  valid := hs.valid
  table {i} hr := by
    have htable : (s.grown g).tableOf? i = s.tableOf? i := by
      change s.mounted.table? (g.tableName i) = _
      rw [h.extends.tableName]
      rfl
    rw [htable]
    exact hs.table (by rwa [relational_eq, any_known?_grown rfl] at hr)

theorem known?_grown_self (hs : s.Sound) {g : Graph}
    (h : s.engine.graph.Adds (s.engine.graph.size, g)) :
    (s.grown g).known? s.engine.graph.size = some .fresh := by
  have hlt : s.engine.graph.size < (s.grown g).engine.states.size := by
    rw [(hs.grown h).size]
    exact Nat.lt_of_lt_of_eq (Nat.lt_succ_self _) h.size.symm
  have hst : (s.grown g).known? s.engine.graph.size = some (s.grown g).engine.states[s.engine.graph.size] :=
    Array.getElem?_eq_getElem hlt
  rw [hst, known?_grown_new (Nat.le_of_eq hs.size) hst]

end Site

/-! ## Between operations -/

/-- Computations touch the tables of their own graph only. -/
theorem Moves.disk {s t : Site} {bound : NodeId} (h : Moves bound s t) :
    s.disk.KeepsBut s.engine.graph.Owns t.disk := by
  induction h with
  | refl => exact .refl _ _
  | @tail t u h hm ih =>
    obtain ⟨i, -, hm⟩ := hm
    have hk : s.Keeps bound t := Moves.keeps h
    refine ih.trans ?_
    rw [← hk.graph]
    obtain ⟨m, b, f, rfl, hw, -⟩ := hm.changes
    exact hw.keepsBut.mono fun name hn => ⟨i, hn⟩

namespace Site

variable {s t : Site}

theorem AtRest.progress {bound : NodeId} (hs : s.AtRest) (h : s.Progress bound t) : t.AtRest :=
  ⟨h.sound hs.sound, h.moves.disk.valid hs.files, fun i => (h.computing i).trans (hs.idle i)⟩

theorem AtRest.grown (hs : s.AtRest) {g : Graph}
    (h : s.engine.graph.Adds (s.engine.graph.size, g)) : (s.grown g).AtRest :=
  ⟨hs.sound.grown h, hs.files, fun i => (any_known?_grown rfl).trans (hs.idle i)⟩

/-- What is known once a base table has been added: its value, and of the others what was known. -/
theorem known?_supplied (hs : s.Sound) {t : Table} {g : Graph}
    (hg : s.engine.graph.addSource t.inferSchema = .ok (s.engine.graph.size, g)) {m : Mounted}
    {i : NodeId}
    {st : NodeState} (hst : (s.supplied g m t).known? i = some st) :
    i = s.engine.graph.size ∧
        st = (NodeState.fresh.marked m.store.generation).keeping
          (UInt64.ofNat (t.coerce t.inferSchema).rowCount) (.table (t.coerce t.inferSchema))
          ⟨(Result.table (t.coerce t.inferSchema)).footprint, "source"⟩ ∨
      i ≠ s.engine.graph.size ∧ (s.grown g).known? i = some st := by
  rw [Site.supplied, known?_modify] at hst
  split at hst
  · rename_i hi
    subst hi
    obtain ⟨st₀, hst₀, rfl⟩ := Option.map_eq_some_iff.1 hst
    have hnew := known?_grown_self hs (Graph.addSource_adds hg)
    rw [show (s.grown g).known? _ = some st₀ from hst₀, Option.some.injEq] at hnew
    exact .inl ⟨rfl, by rw [hnew]⟩
  · rename_i hi
    exact .inr ⟨Ne.symm hi, hst⟩

/-- A base table is a change of the new node, of which nothing was known. -/
theorem changesAt_supplied (hs : s.AtRest) {t : Table} {g : Graph}
    (hg : s.engine.graph.addSource t.inferSchema = .ok (s.engine.graph.size, g)) {m : Mounted}
    {x : StoredTable}
    (hw : s.mounted.Writes (s.engine.graph.tableName s.engine.graph.size) m)
    (ht : m.table? (s.engine.graph.tableName s.engine.graph.size) = some x) :
    (s.grown g).ChangesAt s.engine.graph.size (s.supplied g m t) := by
  have hst := known?_grown_self hs.sound (Graph.addSource_adds hg)
  obtain rfl := Graph.eq_push_of_addSource hg
  have hg : m.store.generation = s.engine.store.generation := hw.generation
  refine ⟨m, _, _, rfl, hw, fun st h => ?_, fun h => ?_, fun _ _ => .inr ?_⟩
  · rw [hst, Option.some.injEq] at h
    subst h
    refine ⟨fun c hc => (by cases hc), .inr ?_, fun h => h⟩
    rw [NodeState.keeping, NodeState.marked, hg]
    rfl
  · rw [relational_eq, hst] at h
    cases h
  · exact Option.isSome_iff_exists.2 ⟨x, ht⟩

/-- No table counts any more once the store is opened anew. -/
theorem Sound.relational_remounted (hs : s.Sound) {m : Mounted}
    (hg : m.store.generation = s.engine.store.generation + 1) (i : NodeId) :
    (s.withMounted m).engine.view.relational i = false := by
  refine Bool.eq_false_iff.2 fun hr => ?_
  rw [relational_eq, Option.any_eq_true] at hr
  obtain ⟨st, hst, hr⟩ := hr
  rw [beq_iff_eq, show (s.withMounted m).engine.store.generation = _ from hg] at hr
  exact absurd (hs.marker_le hst hr) (Nat.not_succ_le_self _)

/-- **Turns lead from rest to rest.** -/
theorem Turn.atRest {e : Option NodeId} {x : Option Table} (h : s.Turn e x t) (hs : s.AtRest) :
    t.AtRest := by
  cases h with
  | computed h => exact hs.progress h
  | built g h ht => exact (hs.grown h).progress ht
  | supplied t g hg m x hw ht =>
    have hgrown := hs.grown (Graph.addSource_adds hg)
    have hch := changesAt_supplied hs hg hw ht
    refine ⟨hch.sound hgrown.sound fun {n st} hn hc _ => ?_, hw.keepsBut.valid hs.files, fun i => ?_⟩
    · obtain rfl := Graph.eq_push_of_addSource hg
      rcases Graph.node?_push.1 hn with hn | ⟨-, rfl⟩
      · exact absurd (Graph.lt_size_of_node? hn) (Nat.lt_irrefl _)
      · cases hc
    · refine (computing_modify (f := fun st => (st.marked _).keeping _ _ _) fun _ => rfl).trans ?_
      exact hgrown.idle i
  | @evicted id n st c _ hn hsource hst hc =>
    have known {i : NodeId} {st' : NodeState}
        (h : ((s.withBudget (s.engine.budget.release c.guard)).modify id fun st =>
          { st with cached := none }).known? i = some st') :
        ∃ st, s.known? i = some st ∧ st'.relational = st.relational ∧
          (st.cached = none → st'.cached = none) := by
      rw [known?_modify] at h
      split at h
      · obtain ⟨st, hst, rfl⟩ := Option.map_eq_some_iff.1 h
        exact ⟨st, hst, rfl, fun _ => rfl⟩
      · exact ⟨st', h, rfl, fun h => h⟩
    refine ⟨⟨hs.sound.graph, ?_, fun hn hcont hst' => ?_, fun hst' hk => ?_, hs.sound.valid,
      fun hr => hs.sound.table ?_⟩, hs.files, fun i => ?_⟩
    · rw [size_modify]
      exact hs.sound.size
    · obtain ⟨st₀, hst₀, hr, hc⟩ := known hst'
      obtain ⟨hc₀, hr₀⟩ := hs.sound.grouping hn hcont hst₀
      exact ⟨hc hc₀, hr.trans hr₀⟩
    · obtain ⟨st₀, hst₀, hr, -⟩ := known hst'
      exact hs.sound.marker_le hst₀ (hr ▸ hk)
    · exact (relational_modify (f := fun st => { st with cached := none }) fun _ => rfl).symm.trans hr
    · refine (computing_modify (f := fun st => { st with cached := none }) fun _ => rfl).trans ?_
      exact hs.idle i
  | configured =>
    exact ⟨⟨hs.sound.graph, hs.sound.size, hs.sound.grouping, hs.sound.marker_le, hs.sound.valid,
      hs.sound.table⟩, hs.files, hs.idle⟩
  | remounted m hd hv hk hg =>
    refine ⟨⟨hs.sound.graph, hs.sound.size, hs.sound.grouping, fun hst hk => ?_, hv, fun {i} hr => ?_⟩,
      hd, hs.idle⟩
    · rw [show (s.withMounted m).engine.store.generation = _ from hg]
      exact Nat.le_succ_of_le (hs.sound.marker_le hst hk)
    · rw [hs.sound.relational_remounted hg] at hr
      cases hr

/-- Turns touch the tables of their own graph only. -/
theorem Turn.disk {e : Option NodeId} {x : Option Table} (h : s.Turn e x t) :
    s.disk.KeepsBut s.engine.graph.Owns t.disk := by
  cases h with
  | computed h => exact h.moves.disk
  | built g h ht =>
    exact ht.moves.disk.mono fun name ⟨i, hi⟩ => ⟨i, h.extends.tableName i ▸ hi⟩
  | supplied t g hg m x hw => exact hw.keepsBut.mono fun name hn => ⟨_, hn⟩
  | evicted => exact .refl _ _
  | configured => exact .refl _ _
  | remounted m hd hv hk hg => exact hk.keepsBut hd _

/-- Turns keep the graph, but for nodes that are added. -/
theorem Turn.extends {e : Option NodeId} {x : Option Table} (h : s.Turn e x t) :
    s.engine.graph.Extends t.engine.graph := by
  cases h with
  | computed h => exact h.keeps.graph ▸ .refl _
  | built g h ht => exact ht.keeps.graph ▸ h.extends
  | supplied t g hg => exact (Graph.addSource_adds hg).extends
  | evicted => exact .refl _
  | configured => exact .refl _
  | remounted => exact .refl _

end Site

/-! ## Operations take turns -/

namespace Engine

variable {s : Site} {id : NodeId}

theorem build_ends {f : Graph → Graph.Built}
    (hf : ∀ r, f s.engine.graph = .ok r → s.engine.graph.Adds r) :
    Ends (build f) s
      (fun id t => id = s.engine.graph.size ∧ ∃ g, f s.engine.graph = .ok (s.engine.graph.size, g) ∧
        t = s.grown g)
      (fun _ t => t = s) := by
  rw [build, ends_bind, ends_ask]
  cases hr : (liftM (f s.engine.graph) : Except EngineError (NodeId × Graph)) with
  | error e => exact rfl
  | ok r =>
    have hr := mapError_eq_ok.1 hr
    obtain ⟨id, g⟩ := r
    have hid : id = s.engine.graph.size := (hf _ hr).id
    subst hid
    exact ⟨rfl, g, hr, rfl⟩

/-- A grouping has no result. -/
theorem compute_of_grouping {n : Node} (hn : s.engine.graph.node? id = some n)
    (hc : n.op.isContainer = true) :
    Ends (compute id) s (fun _ _ => False) fun _ t => t = s := by
  rw [compute, materialize, ends_bind, ends_bind, ends_get, materializeWithin, ends_bind,
    ends_node hn, if_pos hc]
  exact rfl

/-- A node that is not there has no result. -/
theorem compute_of_unknown (hn : s.engine.graph.node? id = none) :
    Ends (compute id) s (fun _ _ => False) fun _ t => t = s := by
  rw [compute, materialize, ends_bind, ends_bind, ends_get, materializeWithin, ends_bind,
    ends_node_unknown hn]

/-- A computation that succeeds has been that of a node with a result, which is in memory. -/
theorem compute_eq_ok (hs : s.AtRest) {v : Result} {t : Site} (hv : compute id s = .ok v t) :
    s.Progress (id + 1) t ∧ ∃ st c, t.known? id = some st ∧ st.cached = some c ∧ c.value = v := by
  cases hn : s.engine.graph.node? id with
  | none => exact ((compute_of_unknown hn).of_ok hv).elim
  | some n =>
    cases hc : n.op.isContainer with
    | true => exact ((compute_of_grouping hn hc).of_ok hv).elim
    | false => exact (compute_ends hs.sound hn hc hs.idle).of_ok hv

/-- Whatever a computation is asked for, it makes progress at most. -/
theorem compute_progress (hs : s.AtRest) :
    Ends (compute id) s (fun _ t => ∃ bound, s.Progress bound t) fun _ t => ∃ bound, s.Progress bound t := by
  cases hn : s.engine.graph.node? id with
  | some n =>
    cases hc : n.op.isContainer with
    | false =>
      exact (compute_ends hs.sound hn hc hs.idle).mono (fun _ t h => ⟨_, h.1⟩) fun e t h => ⟨_, h.1⟩
    | true =>
      exact (compute_of_grouping hn hc).mono (fun _ _ h => h.elim) fun e t h => h ▸ ⟨0, .refl _ _⟩
  | none => exact (compute_of_unknown hn).mono (fun _ _ h => h.elim) fun e t h => h ▸ ⟨0, .refl _ _⟩

/-- A base table is added with its value, or its node has no result. -/
theorem addTable_ends (hs : s.AtRest) {x : Table} :
    Ends (addTable x) s (fun id t => id = s.engine.graph.size ∧ s.Turn none (some x) t)
      (fun _ t => s.Turn none none t) := by
  rw [addTable]
  refine (build_ends fun r => Graph.addSource_adds).andThen ?_ fun e t ht =>
    ht ▸ Site.Turn.computed (.refl 0 t)
  rintro - t ⟨rfl, g, hg, rfl⟩
  have hadds := Graph.addSource_adds hg
  have hgrown := hs.grown hadds
  have hn : (s.grown g).engine.graph.node? s.engine.graph.size =
      some ⟨s.engine.graph.size, s.engine.graph.tableName s.engine.graph.size, .source,
        x.inferSchema⟩ := by
    obtain rfl := Graph.eq_push_of_addSource hg
    exact Graph.node?_push.2 (.inr ⟨rfl, rfl⟩)
  have htag : g.tableName s.engine.graph.size = s.engine.graph.tableName s.engine.graph.size :=
    hadds.extends.tableName _
  have hst := Site.known?_grown_self hs.sound hadds
  rw [ends_bind, ends_node hn, ends_bind, ends_onStore]
  refine (Store.bulkLoad_ends hs.sound.valid).mono ?_ ?_
  · rintro - m ⟨hw, y, hm, hy⟩
    rw [ends_bind, ends_acquireUnchecked, ends_bind]
    refine (ends_markRelational (by exact hst)).2 ?_
    rw [ends_bind]
    refine (ends_keep (Site.known?_modify_self (by exact hst) _)).2 ?_
    rw [Site.modify_modify]
    exact ⟨rfl, .supplied x g hg m y hw hm hy⟩
  · rintro e m ⟨hw, -⟩
    have hfail : Move (s.grown g) s.engine.graph.size ((s.grown g).withMounted m) := by
      refine .storeFailed m ?_ fun hr => ?_
      · rw [show (s.grown g).engine.graph.tableName s.engine.graph.size = _ from htag]
        exact hw
      · rw [Site.relational_eq, hst] at hr
        cases hr
    exact .built g hadds ⟨.single hfail, fun i => rfl⟩

theorem evict_ends (hs : s.AtRest) : Ends (evict id) s (fun _ t => s.Turn (some id) none t)
    (fun _ t => t = s) := by
  have same : s.Turn (some id) none s := .computed (.refl 0 s)
  rw [evict, ends_bind]
  cases hn : s.engine.graph.node? id with
  | none =>
    exact (ends_node_unknown hn).2 rfl
  | some n =>
    obtain ⟨st, hst⟩ := hs.sound.known hn
    rw [ends_node hn, ends_bind, ends_state hst]
    cases hc : st.cached with
    | none => exact same
    | some c =>
      refine Ends.ite (fun _ => same) fun hsource => ?_
      rw [ends_bind, ends_release, ends_bind]
      refine (ends_updateState (by exact hst)).2 ?_
      exact .evicted rfl hn (by simpa using hsource) hst hc

end Engine

/-- **Every operation takes a turn**, also when it fails. A base table is added and a result evicted
only if it succeeds. -/
theorem Operation.run_ends {s : Site} (hs : s.AtRest) (o : Operation) :
    Ends o.run s (fun _ t => s.Turn o.evicts o.adds t) (fun _ t => s.Turn none none t) := by
  have same : s.Turn none none s := .computed (.refl 0 s)
  cases o with
  | build c =>
    refine (Engine.build_ends fun r => c.adds hs.sound.graph).andThen ?_ fun e t ht => ht ▸ same
    rintro - t ⟨-, g, hg, rfl⟩
    exact .built g (c.adds hs.sound.graph hg) (.refl 0 _)
  | addTable x => exact (Engine.addTable_ends hs).andThen (fun _ t h => h.2) fun e t h => h
  | compute id =>
    refine (Engine.compute_progress hs).andThen ?_ fun e t ⟨_, h⟩ => .computed h
    exact fun _ t ⟨_, h⟩ => .computed h
  | evict id => exact (Engine.evict_ends hs).andThen (fun _ t h => h) fun e t h => h ▸ same
  | setStrategy strategy => exact .configured strategy s.engine.model
  | setCostModel model => exact .configured s.engine.config.strategy model
  | setDatabase path deleteOld =>
    rw [run, Engine.setDatabase, Engine.ends_onStore]
    refine (Store.setPath_ends hs.files).mono ?_ fun e m hm => hm ▸ same
    exact fun _ m ⟨hd, hv, hk, hg⟩ => .remounted m hd hv hk hg
  | close delete =>
    rw [run, Engine.close, Engine.ends_onStore]
    refine (Store.close_ends hs.files).mono ?_ fun e m hm => hm ▸ same
    exact fun _ m ⟨hd, hv, hk, hg⟩ => .remounted m hd hv hk hg

/-! ## Runs -/

/-- Others have changed the disk, but none of the tables that this engine has in its database. -/
structure Site.Elsewhere (s : Site) (d : Disk) : Prop where
  valid : d.Valid
  size : s.disk.databases.size ≤ d.databases.size
  table : ∀ c, s.engine.store.connection = some c → ∀ id,
    (d.database c).table? (s.engine.graph.tableName id) =
      (s.disk.database c).table? (s.engine.graph.tableName id)

/-- An operation has been performed, or others have changed the disk. The table is the base table that
has been added. -/
inductive Site.Step (s : Site) : Option Table → Site → Prop
  | done (o : Operation) {t : Site} (h : o.run s = .ok ⟨⟩ t) : Step s o.adds t
  | failed (o : Operation) {e : EngineError} {t : Site} (h : o.run s = .error e t) : Step s none t
  | elsewhere (d : Disk) (h : s.Elsewhere d) : Step s none { s with disk := d }

theorem Site.AtRest.elsewhere {s : Site} (hs : s.AtRest) {d : Disk} (h : s.Elsewhere d) :
    Site.AtRest { s with disk := d } := by
  refine ⟨⟨hs.sound.graph, hs.sound.size, hs.sound.grouping, hs.sound.marker_le, fun c hc => ?_,
    fun {i} hr => ?_⟩, h.valid, hs.idle⟩
  · exact Nat.lt_of_lt_of_le (hs.sound.valid c hc) h.size
  · obtain ⟨x, hx⟩ := Option.isSome_iff_exists.1 (hs.sound.table hr)
    obtain ⟨c, hc, hx⟩ := Option.bind_eq_some_iff.1 hx
    refine Option.isSome_iff_exists.2 ⟨x, Option.bind_eq_some_iff.2 ⟨c, hc, ?_⟩⟩
    exact (h.table c hc i).trans hx

theorem Site.Step.atRest {s t : Site} {x : Option Table} (h : s.Step x t) (hs : s.AtRest) :
    t.AtRest := by
  cases h with
  | done o h => exact ((o.run_ends hs).of_ok h).atRest hs
  | failed o h => exact ((o.run_ends hs).of_error h).atRest hs
  | elsewhere d h => exact hs.elsewhere h

/-- A run from a new engine leads to the site, through sites for which `P` holds. -/
inductive Site.Reached (P : Site → Prop) : Site → Prop
  | start {disk : Disk} {tag : String} {config : Config} {s : Site} (hd : disk.Valid)
      (h : Engine.start disk tag config = .ok s) (hs : P s) : Reached P s
  | step {s t : Site} {x : Option Table} (h : Reached P s) (hst : s.Step x t) (ht : P t) :
      Reached P t

theorem Engine.start_spec {disk : Disk} {tag : String} {config : Config} {s : Site}
    (hd : disk.Valid) (h : Engine.start disk tag config = .ok s) :
    s.AtRest ∧ disk.Keeps s.disk ∧ s.engine.graph = .empty tag ∧ s.engine.states = #[] ∧
      s.engine.budget = .ofCapacity config.memoryCap ∧ s.engine.config = config := by
  rw [Engine.start] at h
  split at h
  · cases h
  · rename_i m hm
    obtain ⟨hd', hv, hk⟩ := Store.openAt_spec hd hm
    cases h
    have nothing {i : NodeId} {st : NodeState} (h : (#[] : Array NodeState)[i]? = some st) : False := by
      simp at h
    refine ⟨⟨⟨Graph.wellFormed_empty tag, rfl, fun _ _ h => (nothing h).elim,
      fun h => (nothing h).elim, hv, fun {i} h => ?_⟩, hd', fun i => rfl⟩, hk, rfl, rfl, rfl, rfl⟩
    cases h

/-- **An engine is at rest between operations**, whatever has been asked of it. -/
theorem Site.Reached.atRest {P : Site → Prop} {s : Site} (h : Reached P s) : s.AtRest := by
  induction h with
  | start hd h _ => exact (Engine.start_spec hd h).1
  | step _ hst _ ih => exact hst.atRest ih

/-- The site once operations have been performed one after the other, whether they succeed or not. -/
def Site.after (s : Site) : List Operation → Site
  | [] => s
  | o :: rest =>
    match o.run s with
    | .ok _ t => t.after rest
    | .error _ t => t.after rest

/-- Do operations, one after the other, lead to sites for which `P` holds? -/
def Site.Passes (P : Site → Prop) (s : Site) : List Operation → Prop
  | [] => True
  | o :: rest =>
    match o.run s with
    | .ok _ t | .error _ t => P t ∧ t.Passes P rest

instance Site.decidablePasses {P : Site → Prop} [DecidablePred P] (s : Site) :
    ∀ os, Decidable (s.Passes P os)
  | [] => .isTrue trivial
  | o :: rest =>
    match h : o.run s with
    | .ok _ t | .error _ t =>
      have := decidablePasses (P := P) t rest
      decidable_of_iff (P t ∧ t.Passes P rest) (by rw [Passes, h])

theorem Site.Reached.passes {P : Site → Prop} {s : Site} (h : Reached P s) {os : List Operation}
    (hP : s.Passes P os) : Reached P (s.after os) := by
  induction os generalizing s with
  | nil => exact h
  | cons o rest ih =>
    rw [Passes] at hP
    rw [Site.after]
    cases ho : o.run s with
    | ok a t =>
      rw [ho] at hP
      exact ih (h.step (.done o ho) hP.1) hP.2
    | error e t =>
      rw [ho] at hP
      exact ih (h.step (.failed o ho) hP.1) hP.2

theorem Site.passes_true (s : Site) (os : List Operation) : s.Passes (fun _ => True) os := by
  induction os generalizing s with
  | nil => trivial
  | cons o rest ih =>
    rw [Passes]
    split <;> exact ⟨trivial, ih _⟩

theorem Site.Reached.after {s : Site} (h : Reached (fun _ => True) s) (os : List Operation) :
    Reached (fun _ => True) (s.after os) :=
  h.passes (s.passes_true os)

end LazyQuery
