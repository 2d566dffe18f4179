import LazyQuery.Proofs.Engine.Steps
import LazyQuery.Proofs.Graph.TableNames
import LazyQuery.Proofs.Sql.Compile
import LazyQuery.Proofs.Store.Operations
import Mathlib.Logic.Relation

/-!
# What a computation can do

A computation changes a site by *moves*, each of which is about one node: its flag is set or cleared,
it is evaluated, it is read from the store or found too large, its result is loaded into the store
or created there, or an operation of the store fails. `Move` lists them with all that is known when
they are made, so that whatever holds of every move holds of every computation.

* `Site.Sound` is what holds of a site whenever no move is under way.
* `Move.sound` says that moves keep it, and `Move.keeps` what else they keep: results stay in memory,
  tables stay in the store, and nothing but the node itself is touched.
* A result is `Reproducible` if its table could be created once more with the same contents.
* `Site.Records`, `Site.IsOffload`, `Site.IsReadBack` and `Site.Answers` say what the numbers of rows, the
  tables and the results are that a move writes down.
-/

set_option autoImplicit false

namespace LazyQuery

open Sql

/-! ## Sound sites -/

namespace Site

/-- The table of a node in the open database. -/
def tableOf? (s : Site) (id : NodeId) : Option StoredTable :=
  s.mounted.table? (s.engine.graph.tableName id)

/-- What holds of a site between two moves. -/
structure Sound (s : Site) : Prop where
  graph : s.engine.graph.WellFormed
  size : s.engine.states.size = s.engine.graph.size
  grouping : ∀ {i n st}, s.engine.graph.node? i = some n → n.op.isContainer = true →
    s.known? i = some st → st.cached = none ∧ st.relational = none
  marker_le : ∀ {i st k}, s.known? i = some st → st.relational = some k →
    k ≤ s.engine.store.generation
  valid : s.mounted.Valid
  table : ∀ {i}, s.engine.view.relational i = true → (s.tableOf? i).isSome = true

variable {s t : Site} {id i : NodeId}

theorem Sound.known (h : s.Sound) {n : Node} (hn : s.engine.graph.node? i = some n) :
    ∃ st, s.known? i = some st := by
  have hlt := Graph.lt_size_of_node? hn
  rw [← h.size] at hlt
  exact ⟨_, Array.getElem?_eq_getElem hlt⟩

theorem Sound.skipsGroupings (h : s.Sound) : s.engine.graph.SkipsGroupings s.engine.view := by
  intro i n hn hc
  obtain ⟨st, hst⟩ := h.known hn
  obtain ⟨hm, hr⟩ := h.grouping hn hc hst
  rw [inMemory_eq, relational_eq, hst]
  simp [hm, hr]

/-- The engine may use the store: its strategy allows it, or a result is too large for memory. -/
def MayUseStore (s : Site) : Prop :=
  s.engine.config.strategy ≠ some .never ∨ ∃ i, s.engine.view.outOfMemory i = true

/-- The engine may evaluate a node: its strategy allows it, or the node is no table that there is a
statement for. -/
def MayEvaluate (s : Site) (id : NodeId) : Prop :=
  s.engine.config.strategy ≠ some .always ∨
    s.engine.graph.Has (fun op => op.isTable = true → op.hasStatement = false) id

/-- The table of a node could be created once more with the same contents: its statement reads the
tables of its inputs, which are there, and yields what the table holds. -/
def Reproducible (s : Site) (id : NodeId) : Prop :=
  ∃ n body c t, s.engine.graph.node? id = some n ∧ n.op.hasStatement = true ∧
    s.engine.graph.compound id = .ok body ∧
    Query.isAccepted ⟨[], body⟩ Query.belowCreateTable = true ∧
    (∃ db, Database.isFree db (s.engine.graph.tableName id) = true) ∧
    (∀ d ∈ n.op.tables, s.engine.view.relational d = true) ∧
    s.engine.store.connection = some c ∧ s.tableOf? id = some t ∧
    (s.disk.database c).resultOf? ⟨[], body⟩ = some t.content

/-- The node's recorded number of rows is this one, unless none has been recorded. -/
def Records (s : Site) (id : NodeId) (rows : UInt64) : Prop :=
  ∀ {st k}, s.known? id = some st → st.rows = some k → k = rows

/-- The table has been loaded from the node's result in memory. -/
def IsOffload (s : Site) (id : NodeId) (x : StoredTable) : Prop :=
  ∃ n st c t, s.engine.graph.node? id = some n ∧ s.known? id = some st ∧ st.cached = some c ∧
    c.value.toTable n.columns = .ok t ∧ x.IsLoaded t n.schema

/-- The result is made of what a query for all rows of the node's table yields. -/
def IsReadBack (s : Site) (id : NodeId) (value : Result) : Prop :=
  ∃ n c r t, s.engine.graph.node? id = some n ∧ s.engine.store.connection = some c ∧
    (s.disk.database c).query? (.readAll (s.engine.graph.tableName id) n.columns) = some r ∧
    Table.ofColumns r.toColumns = .ok t ∧ value = n.resultOf t

/-- The table holds what the node's query yields, where every other table is as it is. The query reads
tables that count and results that it has named before. -/
def Answers (s : Site) (id : NodeId) (x : StoredTable) : Prop :=
  ∃ q c db, s.engine.graph.query id s.engine.view = .ok q ∧ s.engine.store.connection = some c ∧
    Database.AgreesBut (s.engine.graph.tableName id) (s.disk.database c) db ∧
    db.resultOf? q = some x.content ∧
    ∀ isKnown : String → Bool,
      (∀ d < id, s.engine.view.relational d = true →
        isKnown (s.engine.graph.tableName d) = true) → readsOnly isKnown q.named q.body = true

end Site

/-! ## Moves -/

/-- What a computation can do to a site, by the node that is concerned. -/
inductive Move (s : Site) (id : NodeId) : Site → Prop
  /-- The node comes under computation, or ceases to be. -/
  | flag (b : Bool) : Move s id (s.modify id (.flagged b))
  | evaluated (value : Result) (hu : s.MayEvaluate id) (hi : s.engine.view.inMemory id = false)
      (hv : s.engine.graph.evaluate s.engine.cachedValue id = .ok value)
      (hr : s.engine.view.relational id = false) (ho : s.engine.view.outOfMemory id = false) :
      Move s id ((s.withBudget (s.engine.budget.reserve value.footprint)).modify id
        (.keeping (UInt64.ofNat value.rowCount) value ⟨value.footprint, "eval"⟩))
  | foundTooLarge (rows estimated : UInt64) (hi : s.engine.view.inMemory id = false)
      (hr : s.engine.view.relational id = true) (hn : s.Records id rows)
      (ho : s.engine.view.outOfMemory id = false) :
      Move s id (s.modify id fun st =>
        { st with outOfMemory := true, estimated := estimated, rows := some rows })
  | readFailed (estimated : UInt64) (g : Guard) (b : Budget)
      (ha : estimated ≤ s.engine.available)
      (hb : s.engine.budget.acquire estimated "readback" = .ok (g, b)) :
      Move s id (s.withBudget (b.release g))
  | readBack (rows estimated : UInt64) (value : Result) (g : Guard) (b : Budget) (m : Mounted)
      (hi : s.engine.view.inMemory id = false) (hr : s.engine.view.relational id = true)
      (ha : estimated ≤ s.engine.available)
      (hb : s.engine.budget.acquire estimated "readback" = .ok (g, b))
      (hd : m.disk = s.disk)
      (hw : s.mounted.Writes (s.engine.graph.tableName id) m)
      (ho : s.engine.view.outOfMemory id = false) (hn : s.Records id rows)
      (hx : s.IsReadBack id value) :
      Move s id (((s.withMounted m).withBudget (b.resizeUnchecked g value.footprint).2).modify id
        (.keeping rows value (b.resizeUnchecked g value.footprint).1))
  | loaded (m : Mounted) (x : StoredTable) (hu : s.MayUseStore)
      (hi : s.engine.view.inMemory id = true) (hr : s.engine.view.relational id = false)
      (hw : s.mounted.Writes (s.engine.graph.tableName id) m)
      (ht : m.table? (s.engine.graph.tableName id) = some x) (hx : s.IsOffload id x) :
      Move s id ((s.withMounted m).modify id (.marked s.engine.store.generation))
  | created (m : Mounted) (x : StoredTable) (hu : s.MayUseStore)
      (hs : s.engine.graph.Has (·.hasStatement) id)
      (hw : s.mounted.Writes (s.engine.graph.tableName id) m)
      (ht : m.table? (s.engine.graph.tableName id) = some x) (hx : s.Answers id x)
      (hr : s.engine.view.relational id = true →
        (s.tableOf? id).map StoredTable.content = some x.content)
      (hp : s.engine.config.materializeIntermediates = true →
        ((s.withMounted m).modify id fun st =>
          { st.marked s.engine.store.generation with
            rows := some (UInt64.ofNat x.rows.length) }).Reproducible id)
      (hi : s.engine.view.inMemory id = false) :
      Move s id ((s.withMounted m).modify id fun st =>
        { st.marked s.engine.store.generation with rows := some (UInt64.ofNat x.rows.length) })
  | storeFailed (m : Mounted) (hw : s.mounted.Writes (s.engine.graph.tableName id) m)
      (hr : s.engine.view.relational id = true →
        (m.table? (s.engine.graph.tableName id)).map StoredTable.content =
          (s.tableOf? id).map StoredTable.content) :
      Move s id (s.withMounted m)

/-- What is known of a node becomes more, at a generation of the store. -/
structure NodeState.Grows (generation : Nat) (st st' : NodeState) : Prop where
  cached : ∀ c, st.cached = some c → st'.cached = some c
  relational : st'.relational = st.relational ∨ st'.relational = some generation
  outOfMemory : st.outOfMemory = true → st'.outOfMemory = true

theorem NodeState.Grows.refl (generation : Nat) (st : NodeState) : st.Grows generation st :=
  ⟨fun _ h => h, .inl rfl, fun h => h⟩

theorem NodeState.Grows.trans {generation : Nat} {st st' st'' : NodeState}
    (h : st.Grows generation st') (h' : st'.Grows generation st'') : st.Grows generation st'' :=
  ⟨fun c hc => h'.cached c (h.cached c hc),
    h'.relational.elim (fun e => e ▸ h.relational) .inr,
    fun ho => h'.outOfMemory (h.outOfMemory ho)⟩

/-- What is known of one node, its table and the budget have changed, in such a way that nothing is
lost: results stay in memory, a table that counts keeps its contents. -/
def Site.ChangesAt (s : Site) (id : NodeId) (t : Site) : Prop :=
  ∃ m b f, t = ((s.withMounted m).withBudget b).modify id f ∧
    s.mounted.Writes (s.engine.graph.tableName id) m ∧
    (∀ st, s.known? id = some st → st.Grows s.engine.store.generation (f st)) ∧
    (s.engine.view.relational id = true →
      (m.table? (s.engine.graph.tableName id)).map StoredTable.content =
        (s.tableOf? id).map StoredTable.content) ∧
    (∀ st, s.known? id = some st → (f st).relational = st.relational ∨
      (m.table? (s.engine.graph.tableName id)).isSome = true)

namespace Move

variable {s t : Site} {id : NodeId}

theorem modify_self (s : Site) (id : NodeId) : s.modify id (fun st => st) = s := by
  have : s.engine.states.modify id (fun st => st) = s.engine.states := by
    refine Array.ext (by simp) fun i _ _ => ?_
    simp [Array.getElem_modify]
  rw [Site.modify, this]

theorem cached_of_inMemory {st : NodeState} (hst : s.known? id = some st)
    (hi : s.engine.view.inMemory id = false) : st.cached = none := by
  rw [Site.inMemory_eq, hst] at hi
  simpa using hi

/-- Every move changes what is known of its node, the table of the node and the budget. -/
theorem changes (h : Move s id t) : s.ChangesAt id t := by
  cases h with
  | flag b =>
    exact ⟨s.mounted, s.engine.budget, _, rfl, .refl _ _,
      fun st _ => ⟨fun _ h => h, .inl rfl, fun h => h⟩, fun _ => rfl, fun _ _ => .inl rfl⟩
  | evaluated value _ hi =>
    refine ⟨s.mounted, _, _, rfl, .refl _ _, fun st hst => ⟨fun c hc => ?_, .inl rfl, fun h => h⟩,
      fun _ => rfl, fun _ _ => .inl rfl⟩
    rw [cached_of_inMemory hst hi] at hc
    cases hc
  | foundTooLarge =>
    exact ⟨s.mounted, s.engine.budget, _, rfl, .refl _ _,
      fun st _ => ⟨fun _ h => h, .inl rfl, fun _ => rfl⟩, fun _ => rfl, fun _ _ => .inl rfl⟩
  | readFailed estimated g b ha hb =>
    exact ⟨s.mounted, _, _, (modify_self _ id).symm, .refl _ _, fun st _ => .refl _ _,
      fun _ => rfl, fun _ _ => .inl rfl⟩
  | readBack rows estimated value g b m hi hr ha hb hd hw =>
    refine ⟨m, _, _, rfl, hw, fun st hst => ⟨fun c hc => ?_, .inl rfl, fun h => h⟩,
      fun _ => ?_, fun _ _ => .inl rfl⟩
    · rw [cached_of_inMemory hst hi] at hc
      cases hc
    · simp [Site.tableOf?, Mounted.table?, hd, hw.connection]
      rfl
  | loaded m x hu hi hr hw ht =>
    exact ⟨m, s.engine.budget, _, rfl, hw, fun st _ => ⟨fun _ h => h, .inr rfl, fun h => h⟩,
      fun h => by simp [hr] at h, fun _ _ => .inr (by rw [ht]; rfl)⟩
  | created m x hu hs hw ht hx hr hp =>
    exact ⟨m, s.engine.budget, _, rfl, hw, fun st _ => ⟨fun _ h => h, .inr rfl, fun h => h⟩,
      fun h => by rw [ht, hr h, Option.map_some], fun _ _ => .inr (by rw [ht]; rfl)⟩
  | storeFailed m hw hr =>
    exact ⟨m, s.engine.budget, _, (modify_self _ id).symm, hw, fun st _ => .refl _ _, hr,
      fun _ _ => .inl rfl⟩

/-- A grouping never gets a result. -/
theorem grouping (h : Move s id t) (hs : s.Sound) {n : Node}
    (hn : s.engine.graph.node? id = some n) (hc : n.op.isContainer = true) {st : NodeState}
    (hst : t.known? id = some st) : st.cached = none ∧ st.relational = none := by
  obtain ⟨hi, hr⟩ := hs.skipsGroupings hn hc
  obtain ⟨st₀, hst₀⟩ := hs.known hn
  have old := hs.grouping hn hc hst₀
  cases h with
  | flag b =>
    rw [Site.known?_modify_self hst₀] at hst
    cases hst
    exact old
  | evaluated value _ _ hv =>
    rw [Graph.evaluate, Graph.node_eq_ok.2 hn] at hv
    obtain ⟨i, name, op, schema⟩ := n
    cases op <;> cases hc <;> cases hv
  | foundTooLarge _ _ _ hr' => simp [hr] at hr'
  | readFailed _ _ _ _ _ =>
    rw [Site.known?_withBudget, hst₀] at hst
    cases hst
    exact old
  | readBack _ _ _ _ _ _ _ hr' => simp [hr] at hr'
  | loaded _ _ _ hi' => simp [hi] at hi'
  | created _ _ _ hs' =>
    obtain ⟨m, hm, hst'⟩ := hs'
    rw [hn, Option.some.injEq] at hm
    subst hm
    obtain ⟨i, name, op, schema⟩ := n
    cases op <;> cases hc <;> cases hst'
  | storeFailed _ _ _ =>
    rw [Site.known?_withMounted, hst₀] at hst
    cases hst
    exact old

end Move

/-! ## What moves keep -/

/-- What stays as it is while nodes below a bound are computed, and how the rest grows. -/
structure Site.Keeps (bound : NodeId) (s t : Site) : Prop where
  graph : t.engine.graph = s.engine.graph
  config : t.engine.config = s.engine.config
  model : t.engine.model = s.engine.model
  generation : t.engine.store.generation = s.engine.store.generation
  connection : t.engine.store.connection = s.engine.store.connection
  size : t.engine.states.size = s.engine.states.size
  above : ∀ i, bound ≤ i → t.known? i = s.known? i
  grows : ∀ {i st}, s.known? i = some st →
    ∃ st', t.known? i = some st' ∧ st.Grows s.engine.store.generation st'
  content : ∀ {i}, s.engine.view.relational i = true →
    (t.tableOf? i).map StoredTable.content = (s.tableOf? i).map StoredTable.content
  plans : ∀ {c}, s.engine.store.connection = some c →
    (t.disk.database c).plans = (s.disk.database c).plans

namespace Site.Keeps

variable {s t u : Site} {bound i : NodeId}

theorem refl (bound : NodeId) (s : Site) : s.Keeps bound s :=
  ⟨rfl, rfl, rfl, rfl, rfl, rfl, fun _ _ => rfl, fun h => ⟨_, h, .refl _ _⟩, fun _ => rfl, fun _ => rfl⟩

theorem inMemory (h : s.Keeps bound t) (hi : s.engine.view.inMemory i = true) :
    t.engine.view.inMemory i = true := by
  rw [inMemory_eq, Option.any_eq_true] at hi ⊢
  obtain ⟨st, hst, hc⟩ := hi
  obtain ⟨st', hst', hg⟩ := h.grows hst
  obtain ⟨c, hc⟩ := Option.isSome_iff_exists.1 hc
  exact ⟨st', hst', by rw [hg.cached c hc]; rfl⟩

theorem relational (h : s.Keeps bound t) (hi : s.engine.view.relational i = true) :
    t.engine.view.relational i = true := by
  rw [relational_eq, Option.any_eq_true] at hi ⊢
  obtain ⟨st, hst, hr⟩ := hi
  obtain ⟨st', hst', hg⟩ := h.grows hst
  refine ⟨st', hst', ?_⟩
  rw [beq_iff_eq] at hr ⊢
  rw [h.generation]
  exact hg.relational.elim (fun e => e.trans hr) id

theorem outOfMemory (h : s.Keeps bound t) (hi : s.engine.view.outOfMemory i = true) :
    t.engine.view.outOfMemory i = true := by
  rw [outOfMemory_eq, Option.any_eq_true] at hi ⊢
  obtain ⟨st, hst, ho⟩ := hi
  obtain ⟨st', hst', hg⟩ := h.grows hst
  exact ⟨st', hst', hg.outOfMemory ho⟩

theorem mayUseStore (h : s.Keeps bound t) (hu : s.MayUseStore) : t.MayUseStore :=
  hu.imp (fun hs => by rwa [h.config]) fun ⟨i, hi⟩ => ⟨i, h.outOfMemory hi⟩

theorem mayEvaluate (h : s.Keeps bound t) {id : NodeId} (hu : s.MayEvaluate id) : t.MayEvaluate id :=
  hu.imp (fun hs => by rwa [h.config]) fun hs => h.graph ▸ hs

theorem trans (h : s.Keeps bound t) (h' : t.Keeps bound u) : s.Keeps bound u where
  graph := h'.graph.trans h.graph
  config := h'.config.trans h.config
  model := h'.model.trans h.model
  generation := h'.generation.trans h.generation
  connection := h'.connection.trans h.connection
  size := h'.size.trans h.size
  above i hi := (h'.above i hi).trans (h.above i hi)
  grows hst := by
    obtain ⟨st', hst', hg⟩ := h.grows hst
    obtain ⟨st'', hst'', hg'⟩ := h'.grows hst'
    rw [h.generation] at hg'
    exact ⟨st'', hst'', hg.trans hg'⟩
  content hr := (h'.content (h.relational hr)).trans (h.content hr)
  plans hc := (h'.plans (h.connection.trans hc)).trans (h.plans hc)

theorem mono {bound' : NodeId} (h : s.Keeps bound t) (hb : bound ≤ bound') : s.Keeps bound' t :=
  { h with above := fun i hi => h.above i (Nat.le_trans hb hi) }

/-- What could be had in memory can still be had. -/
theorem cachedValue (h : s.Keeps bound t) {v : Result} (hv : s.engine.cachedValue i = .ok v) :
    t.engine.cachedValue i = .ok v := by
  simp only [Engine.cachedValue, bind_eq_ok] at hv ⊢
  obtain ⟨st, hst, hv⟩ := hv
  have hknown : s.known? i = some st := by
    simp only [Engine.stateOf] at hst
    split at hst
    · cases hst
      assumption
    · cases hst
  obtain ⟨st', hst', hg⟩ := h.grows hknown
  refine ⟨st', ?_, ?_⟩
  · rw [Engine.stateOf, show t.engine.states[i]? = some st' from hst']
    rfl
  · split at hv
    · cases hv
      rename_i c hc
      rw [hg.cached c hc]
      rfl
    · simp only [bind_eq_ok] at hv
      obtain ⟨_, _, hv⟩ := hv
      cases hv

end Site.Keeps

theorem Site.relational_withMounted {s : Site} {m : Mounted}
    (h : m.store.generation = s.engine.store.generation) (i : NodeId) :
    (s.withMounted m).engine.view.relational i = s.engine.view.relational i := by
  rw [relational_eq, relational_eq, ← h]
  rfl

namespace Site.ChangesAt

variable {s t : Site} {id : NodeId}

/-- **A change touches its own node only**, and takes nothing away that is in memory or in the
store. -/
theorem keeps (h : s.ChangesAt id t) : s.Keeps (id + 1) t := by
  obtain ⟨m, b, f, rfl, hw, hg, hc, -⟩ := h
  refine ⟨rfl, rfl, rfl, hw.generation, hw.connection, Site.size_modify _ _ _, fun i hi => ?_,
    fun {i st} hst => ?_, fun {i} hi => ?_, fun hc => (hw.tables _ hc).plans⟩
  · exact Site.known?_modify_ne (Nat.ne_of_lt hi) f
  · by_cases h : id = i
    · subst h
      exact ⟨f st, Site.known?_modify_self hst f, hg st hst⟩
    · exact ⟨st, (Site.known?_modify_ne h f).trans hst, .refl _ _⟩
  · by_cases h : i = id
    · subst h
      exact hc hi
    · exact congrArg _ (hw.table?_eq (Graph.sameName_tableName_ne h))

/-- Of other nodes a change touches nothing. -/
theorem elsewhere (h : s.ChangesAt id t) {i : NodeId} (hi : i ≠ id) :
    t.known? i = s.known? i ∧ t.engine.view.relational i = s.engine.view.relational i ∧
      t.tableOf? i = s.tableOf? i := by
  obtain ⟨m, b, f, rfl, hw, -⟩ := h
  refine ⟨Site.known?_modify_ne (Ne.symm hi) f, ?_, hw.table?_eq (Graph.sameName_tableName_ne hi)⟩
  rw [relational_eq, Site.known?_modify_ne (Ne.symm hi)]
  exact relational_withMounted hw.generation i

/-- A change leaves a site sound, if it gives no result to a grouping. -/
theorem sound (h : s.ChangesAt id t) (hs : s.Sound)
    (hgroup : ∀ {n st}, s.engine.graph.node? id = some n → n.op.isContainer = true →
      t.known? id = some st → st.cached = none ∧ st.relational = none) : t.Sound := by
  have hkeeps := h.keeps
  obtain ⟨m, b, f, ht, hw, hg, hc, hm⟩ := h
  have known {i : NodeId} {st : NodeState} (hst : t.known? i = some st) :
      ∃ st₀, s.known? i = some st₀ ∧ (i ≠ id ∧ st = st₀ ∨ i = id ∧ st = f st₀) := by
    rw [ht, Site.known?_modify] at hst
    by_cases hi : id = i
    · rw [if_pos hi, Option.map_eq_some_iff] at hst
      obtain ⟨st₀, hst₀, rfl⟩ := hst
      exact ⟨st₀, hst₀, .inr ⟨hi.symm, rfl⟩⟩
    · rw [if_neg hi] at hst
      exact ⟨st, hst, .inl ⟨Ne.symm hi, rfl⟩⟩
  have hmt : t.mounted = m := by rw [ht]; rfl
  refine ⟨hkeeps.graph ▸ hs.graph, ?_, fun {i n st} hn hcont hst => ?_, fun {i st k} hst hk => ?_,
    hmt ▸ hw.valid hs.valid, fun {i} hr => ?_⟩
  · rw [hkeeps.size, hkeeps.graph, hs.size]
  · rw [hkeeps.graph] at hn
    obtain ⟨st₀, hst₀, ⟨-, rfl⟩ | ⟨rfl, -⟩⟩ := known hst
    · exact hs.grouping hn hcont hst₀
    · exact hgroup hn hcont hst
  · rw [hkeeps.generation]
    obtain ⟨st₀, hst₀, ⟨-, rfl⟩ | ⟨rfl, rfl⟩⟩ := known hst
    · exact hs.marker_le hst₀ hk
    · rcases (hg st₀ hst₀).relational with hr | hr
      · exact hs.marker_le hst₀ (hr ▸ hk)
      · rw [hr, Option.some.injEq] at hk
        exact Nat.le_of_eq hk.symm
  · rw [Site.relational_eq, hkeeps.generation, Option.any_eq_true] at hr
    obtain ⟨st, hst, hr⟩ := hr
    have isRelational {st₀ : NodeState} (h₀ : s.known? i = some st₀)
        (he : st.relational = st₀.relational) : s.engine.view.relational i = true := by
      rw [Site.relational_eq, h₀, Option.any_some, ← he]
      exact hr
    obtain ⟨st₀, hst₀, ⟨-, rfl⟩ | ⟨rfl, rfl⟩⟩ := known hst
    · have := hkeeps.content (isRelational hst₀ rfl)
      rw [← Option.isSome_map, this, Option.isSome_map]
      exact hs.table (isRelational hst₀ rfl)
    · rcases hm st₀ hst₀ with he | hsome
      · have := hkeeps.content (isRelational hst₀ he)
        rw [← Option.isSome_map, this, Option.isSome_map]
        exact hs.table (isRelational hst₀ he)
      · rw [Site.tableOf?, hmt, hkeeps.graph]
        exact hsome

end Site.ChangesAt

namespace Move

variable {s t : Site} {id : NodeId}

theorem keeps (h : Move s id t) : s.Keeps (id + 1) t := h.changes.keeps

/-- **Moves keep a site sound.** -/
theorem sound (h : Move s id t) (hs : s.Sound) : t.Sound :=
  h.changes.sound hs fun hn hc hst => h.grouping hs hn hc hst

/-- A node comes into the store by a move of its own: its result is loaded from memory, or it is created
there and can be once more. -/
theorem stored (h : Move s id t) {j : NodeId} (hj : s.engine.view.relational j = false)
    (hj' : t.engine.view.relational j = true) : j = id ∧ ∃ x, t.tableOf? id = some x ∧
      (t.engine.view.inMemory id = true ∧ s.IsOffload id x ∨
        s.engine.graph.Has (·.hasStatement) id ∧ s.Answers id x ∧
          (s.engine.config.materializeIntermediates = true → t.Reproducible id)) := by
  have same (h : t.engine.view.relational j = s.engine.view.relational j) : False := by
    rw [h, hj] at hj'
    cases hj'
  obtain rfl : j = id := Classical.byContradiction fun hne => same (h.changes.elsewhere hne).2.1
  refine ⟨rfl, ?_⟩
  cases h with
  | flag b => exact (same (Site.relational_modify fun _ => rfl)).elim
  | evaluated => exact (same (Site.relational_modify fun _ => rfl)).elim
  | foundTooLarge => exact (same (Site.relational_modify fun _ => rfl)).elim
  | readFailed => exact (same rfl).elim
  | readBack _ _ _ _ _ _ _ hr => simp [hj] at hr
  | loaded m x _ hi _ _ ht hx =>
    refine ⟨x, ht, .inl ⟨?_, hx⟩⟩
    exact (Site.inMemory_modify (f := .marked s.engine.store.generation) fun _ => rfl).trans hi
  | created m x _ hs _ ht hx _ hp => exact ⟨x, ht, .inr ⟨hs, hx, hp⟩⟩
  | storeFailed m hw => exact (same (Site.relational_withMounted hw.generation j)).elim

/-- A result comes into memory by a move of its own: the node is evaluated, or its table is read back. -/
theorem cached (h : Move s id t) {j : NodeId} {st' : NodeState} {c : Cached}
    (hst : t.known? j = some st') (hc : st'.cached = some c) :
    (∃ st, s.known? j = some st ∧ st.cached = some c) ∨
      j = id ∧ (s.MayEvaluate id ∧ s.engine.graph.evaluate s.engine.cachedValue id = .ok c.value ∨
        s.engine.view.relational id = true ∧ s.IsReadBack id c.value) := by
  have same {f : NodeState → NodeState} {u : Site} (hst : (u.modify id f).known? j = some st')
      (hu : ∀ i, u.known? i = s.known? i) (hf : ∀ st, (f st).cached = st.cached) :
      ∃ st, s.known? j = some st ∧ st.cached = some c := by
    rcases Site.of_known?_modify hst with ⟨rfl, st, hold, rfl⟩ | ⟨-, hold⟩
    · exact ⟨st, (hu j).symm.trans hold, (hf st).symm.trans hc⟩
    · exact ⟨st', (hu j).symm.trans hold, hc⟩
  have kept {u : Site} {rows : UInt64} {value : Result} {g : Guard}
      (hu : ∀ i, u.known? i = s.known? i)
      (hst : (u.modify id (.keeping rows value g)).known? j = some st') :
      (∃ st, s.known? j = some st ∧ st.cached = some c) ∨ j = id ∧ c.value = value := by
    rcases Site.of_known?_modify hst with ⟨rfl, st, -, rfl⟩ | ⟨-, hold⟩
    · cases hc
      exact .inr ⟨rfl, rfl⟩
    · exact .inl ⟨st', (hu j).symm.trans hold, hc⟩
  cases h with
  | flag | foundTooLarge | loaded | created => exact .inl (same hst (fun _ => rfl) fun _ => rfl)
  | readFailed | storeFailed => exact .inl ⟨st', hst, hc⟩
  | evaluated value hu _ hv =>
    exact (kept (fun _ => rfl) hst).imp_right fun ⟨hj, h⟩ => ⟨hj, .inl ⟨hu, h ▸ hv⟩⟩
  | readBack rows estimated value g b m _ hr _ _ _ _ _ _ hx =>
    exact (kept (fun _ => rfl) hst).imp_right fun ⟨hj, h⟩ => ⟨hj, .inr ⟨hr, h ▸ hx⟩⟩

end Move

namespace Site.Keeps

variable {s t : Site} {bound j : NodeId}

/-- A table that counts is still there, with the same contents. -/
theorem exists_table (h : s.Keeps bound t) (hs : s.Sound)
    (hj : s.engine.view.relational j = true) :
    ∃ x y, s.tableOf? j = some x ∧ t.tableOf? j = some y ∧ x.content = y.content := by
  obtain ⟨x, hx⟩ := Option.isSome_iff_exists.1 (hs.table hj)
  have hc := h.content hj
  rw [hx, Option.map_some, Option.map_eq_some_iff] at hc
  obtain ⟨y, hy, hyx⟩ := hc
  exact ⟨x, y, hx, hy, hyx.symm⟩

/-- A result stays reproducible, as long as its table counts: its statement reads the same tables. -/
theorem reproducible (h : s.Keeps bound t) (hs : s.Sound)
    (hj : s.engine.view.relational j = true) (hr : s.Reproducible j) : t.Reproducible j := by
  obtain ⟨n, body, c, tbl, hn, hst, hbody, hacc, hfree, hdeps, hconn, htbl, hres⟩ := hr
  have hconn' : t.engine.store.connection = some c := h.connection.trans hconn
  obtain ⟨x, y, hx, hy, hxy⟩ := h.exists_table hs hj
  rw [htbl, Option.some.injEq] at hx
  subst hx
  refine ⟨n, body, c, y, by rwa [h.graph], hst, by rwa [h.graph], hacc, by rwa [h.graph],
    fun d hd => h.relational (hdeps d hd), hconn', hy, ?_⟩
  rw [← hxy, ← hres]
  refine (Database.resultOf?_congr (congrFun (h.plans hconn).symm _) fun name hname => ?_).symm
  obtain ⟨body', hbody', hnames⟩ := Graph.compound_spec hs.graph hn hst
  rw [hbody, Except.ok.injEq] at hbody'
  subst hbody'
  have hname : name ∈ body.names := hname
  rw [hnames] at hname
  obtain ⟨d, hd, rfl⟩ := List.mem_map.1 hname
  obtain ⟨x, z, hx, hz, hxz⟩ := h.exists_table hs (hdeps d hd)
  refine ⟨Graph.isListingName_tableName _ _, x, z, ?_, ?_, hxz⟩
  · rwa [Site.tableOf?, Mounted.table?_eq (c := c) hconn] at hx
  · rwa [Site.tableOf?, Mounted.table?_eq (c := c) hconn', h.graph] at hz

end Site.Keeps

/-! ## Several moves -/

/-- Moves that concern nodes below a bound. -/
def Moves (bound : NodeId) : Site → Site → Prop :=
  Relation.ReflTransGen fun s t => ∃ id < bound, Move s id t

namespace Moves

variable {s t u : Site} {bound bound' id : NodeId}

theorem refl (bound : NodeId) (s : Site) : Moves bound s s := Relation.ReflTransGen.refl

theorem single (h : Move s id t) : Moves (id + 1) s t :=
  Relation.ReflTransGen.single ⟨id, Nat.lt_succ_self _, h⟩

theorem trans (h : Moves bound s t) (h' : Moves bound t u) : Moves bound s u :=
  Relation.ReflTransGen.trans h h'

theorem mono (h : Moves bound s t) (hb : bound ≤ bound') : Moves bound' s t :=
  Relation.ReflTransGen.mono (fun _ _ ⟨i, hi, hm⟩ => ⟨i, Nat.lt_of_lt_of_le hi hb, hm⟩) _ _ h

theorem tail (h : Moves bound s t) (hb : id < bound) (h' : Move t id u) : Moves bound s u :=
  Relation.ReflTransGen.tail h ⟨id, hb, h'⟩

theorem keeps (h : Moves bound s t) : s.Keeps bound t := by
  induction h with
  | refl => exact .refl _ _
  | tail _ hm ih =>
    obtain ⟨i, hi, hm⟩ := hm
    exact ih.trans (hm.keeps.mono hi)

theorem sound (h : Moves bound s t) (hs : s.Sound) : t.Sound := by
  induction h with
  | refl => exact hs
  | tail _ hm ih =>
    obtain ⟨i, -, hm⟩ := hm
    exact hm.sound ih

/-- **What comes into the store in the course of a computation can be had again.** It is in memory
too, or it is reproducible, if intermediate results are materialized. -/
theorem relational_new (h : Moves bound s t) (hs : s.Sound)
    (hm : s.engine.config.materializeIntermediates = true) {j : NodeId}
    (hj : s.engine.view.relational j = false) (hj' : t.engine.view.relational j = true) :
    t.engine.view.inMemory j = true ∨ t.Reproducible j := by
  induction h with
  | refl => simp [hj] at hj'
  | @tail t u h hmove ih =>
    obtain ⟨i, -, hmove⟩ := hmove
    have hk := hmove.keeps
    cases ht : t.engine.view.relational j with
    | true =>
      exact (ih ht).imp hk.inMemory (hk.reproducible (Moves.sound h hs) ht)
    | false =>
      have : s.Keeps bound t := Moves.keeps h
      obtain ⟨rfl, x, -, ⟨hi, -⟩ | ⟨-, -, hp⟩⟩ := hmove.stored ht hj'
      · exact .inl hi
      · exact .inr (hp (by rw [this.config, hm]))

end Moves
end LazyQuery
