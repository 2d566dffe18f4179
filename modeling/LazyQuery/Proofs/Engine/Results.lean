import LazyQuery.Proofs.Engine.Evaluate
import LazyQuery.Proofs.Engine.Moves
import LazyQuery.Proofs.Memory.Budget
import LazyQuery.Proofs.Store.Reading

/-!
# How single results are had

The steps of a computation that concern one node: it is evaluated, loaded into the store, created
there, or read back. Each of them makes a move if it is started where a computation starts it, and
fails with reportable errors only.

`Site.Progress` is what a computation of nodes below a bound does to a site, and `Site.Fails` how that of
a node can fail. What is under computation before is so afterwards.
-/

set_option autoImplicit false

namespace LazyQuery

/-! ## Numbers of rows -/

theorem Table.rowCount_coerce (t : Table) (s : Schema) : (t.coerce s).rowCount = t.rowCount := by
  obtain ⟨columns⟩ := t
  cases columns with
  | nil => rfl
  | cons c rest => cases hf : s.field? c.name <;> simp [rowCount, coerce, hf]

theorem Result.rowCount_collapse (t : Table) : (collapse t).rowCount = t.rowCount := by
  rw [collapse]
  split
  · rfl
  · rename_i h
    rw [not_not] at h
    split <;> exact h.symm

theorem Node.rowCount_resultOf (n : Node) (t : Table) : (n.resultOf t).rowCount = t.rowCount := by
  rw [resultOf]
  split
  · rw [Result.rowCount_collapse, Table.rowCount_coerce]
  · exact Table.rowCount_coerce t n.schema

/-- A result has as many rows as a table, if it has any columns then. -/
theorem Result.rowCount_toTable {r : Result} {columns : List String} {t : Table}
    (h : r.toTable columns = .ok t) (hne : t.columns ≠ []) : t.rowCount = r.rowCount := by
  have built {cs : List Column} (h : Table.build cs = .ok t) : t = ⟨cs⟩ := by
    obtain ⟨_, -, h⟩ := bind_eq_ok.1 (mapError_eq_ok.1 h)
    exact (Except.ok.inj h).symm
  cases r with
  | table t' => rw [Except.ok.inj h, rowCount]
  | series entries =>
    obtain rfl := built h
    cases entries with
    | nil => exact absurd rfl hne
    | cons => rfl
  | scalar v =>
    cases columns with
    | nil => cases h
    | cons name => rw [built h]; rfl

/-! ## What a computation of nodes does -/

/-- Nodes below the bound have been computed, and none is under computation any more. -/
structure Site.Progress (bound : NodeId) (s t : Site) : Prop where
  moves : Moves bound s t
  computing : ∀ i, t.computing i = s.computing i

/-- The computation of the node may have failed so: for a reason that can be reported, or because the node,
or one that it hangs on, is a supplied function that yields this error for the table that it is given. -/
def Site.Admits (t : Site) (id : NodeId) (e : EngineError) : Prop :=
  e.IsReportable ∨ ∃ i, (i = id ∨ t.engine.graph.DependsOn id i) ∧ t.engine.view.inMemory i = false ∧
    t.engine.graph.IsSupplied t.engine.cachedValue i e

/-- The computation of the node has failed, for a reason that there may be. -/
def Site.Fails (id : NodeId) (s : Site) (e : EngineError) (t : Site) : Prop :=
  s.Progress (id + 1) t ∧ t.Admits id e

namespace Site

variable {s t u : Site} {bound bound' id : NodeId} {e : EngineError}

theorem Progress.refl (bound : NodeId) (s : Site) : s.Progress bound s := ⟨.refl _ _, fun _ => rfl⟩

theorem Progress.trans (h : s.Progress bound t) (h' : t.Progress bound u) : s.Progress bound u :=
  ⟨h.moves.trans h'.moves, fun i => (h'.computing i).trans (h.computing i)⟩

theorem Progress.mono (h : s.Progress bound t) (hb : bound ≤ bound') : s.Progress bound' t :=
  ⟨h.moves.mono hb, h.computing⟩

theorem Progress.keeps (h : s.Progress bound t) : s.Keeps bound t := h.moves.keeps

theorem Progress.sound (h : s.Progress bound t) (hs : s.Sound) : t.Sound := h.moves.sound hs

theorem Progress.fails (h : s.Progress (id + 1) t) (h' : t.Fails id e u) : s.Fails id e u :=
  ⟨h.trans h'.1, h'.2⟩

theorem cachedValue_modify {f : NodeState → NodeState} (hf : ∀ st, (f st).cached = st.cached) (i : NodeId) :
    (s.modify id f).engine.cachedValue i = s.engine.cachedValue i := by
  have hknown := known?_modify s id i f
  simp only [known?] at hknown
  rw [Engine.cachedValue, Engine.cachedValue, Engine.stateOf, Engine.stateOf, hknown]
  cases s.engine.states[i]? with
  | none =>
    rw [Option.map_none, ite_self]
    rfl
  | some st =>
    by_cases hi : id = i
    · rw [if_pos hi]
      simp only [Option.map_some, pure_eq_ok, ok_bind, hf]
      rfl
    · rw [if_neg hi]
      rfl

/-- A failure does not hang on which nodes are under computation. -/
theorem Admits.flagged (h : s.Admits id e) (j : NodeId) (b : Bool) :
    (s.modify j (.flagged b)).Admits id e := by
  refine h.imp_right fun ⟨i, hi, hm, hsup⟩ => ⟨i, hi, ?_, ?_⟩
  · exact (inMemory_modify (f := .flagged b) fun _ => rfl).trans hm
  · have hcached : (s.modify j (.flagged b)).engine.cachedValue = s.engine.cachedValue :=
      funext (cachedValue_modify (f := .flagged b) fun _ => rfl)
    rwa [hcached]

/-- A node cannot be computed if one that it hangs on cannot. -/
theorem Fails.of_dependsOn {d : NodeId} (h : s.Fails d e t) (hs : s.Sound)
    (hd : s.engine.graph.DependsOn id d) : s.Fails id e t := by
  refine ⟨h.1.mono (Nat.le_succ_of_le (hd.lt hs.graph)), h.2.imp_right ?_⟩
  rintro ⟨i, hi, hrest⟩
  rw [← h.1.keeps.graph] at hd
  exact ⟨i, .inr (hi.elim (fun h => h ▸ hd) hd.trans), hrest⟩

theorem fails_of_isReportable (s : Site) (id : NodeId) (h : e.IsReportable) : s.Fails id e s :=
  ⟨.refl _ _, .inl h⟩

theorem computing_modify {i : NodeId} {f : NodeState → NodeState}
    (hf : ∀ st, (f st).computing = st.computing) : (s.modify id f).computing i = s.computing i :=
  any_known?_modify fun st => by rw [hf]

theorem known?_of_inMemory (h : s.engine.view.inMemory id = true) :
    ∃ st c, s.known? id = some st ∧ st.cached = some c := by
  rw [inMemory_eq, Option.any_eq_true] at h
  obtain ⟨st, hst, hc⟩ := h
  obtain ⟨c, hc⟩ := Option.isSome_iff_exists.1 hc
  exact ⟨st, c, hst, hc⟩

theorem known?_of_relational (h : s.engine.view.relational id = true) :
    ∃ st, s.known? id = some st := by
  rw [relational_eq, Option.any_eq_true] at h
  exact h.imp fun _ h => h.1

theorem cachedValue_of_cached {st : NodeState} {c : Cached} (hst : s.known? id = some st)
    (hc : st.cached = some c) : s.engine.cachedValue id = .ok c.value := by
  rw [Engine.cachedValue, Engine.stateOf, show s.engine.states[id]? = some st from hst]
  simp [hc]

theorem cached_of_cachedValue {v : Result} (h : s.engine.cachedValue id = .ok v) :
    ∃ st c, s.known? id = some st ∧ st.cached = some c ∧ c.value = v := by
  rw [Engine.cachedValue, bind_eq_ok] at h
  obtain ⟨st, hst, h⟩ := h
  rw [Engine.stateOf] at hst
  split at hst
  · rename_i st' hst'
    cases hst
    split at h
    · rename_i c hc
      exact ⟨st, c, hst', hc, Except.ok.inj h⟩
    · obtain ⟨_, _, h⟩ := bind_eq_ok.1 h
      cases h
  · cases hst

theorem relational_marked {st : NodeState} (hst : s.known? id = some st) :
    (s.modify id (.marked s.engine.store.generation)).engine.view.relational id = true := by
  rw [relational_eq, known?_modify_self hst, Option.any_some]
  exact beq_self_eq_true _

theorem inMemory_keeping {st : NodeState} (hst : s.known? id = some st) {rows : UInt64}
    {value : Result} {g : Guard} :
    (s.modify id (.keeping rows value g)).engine.view.inMemory id = true := by
  rw [inMemory_eq, known?_modify_self hst]
  rfl

/-- A table that has been loaded has the rows of the result, under the names of the node's columns. -/
theorem IsOffload.counts {x : StoredTable} (h : s.IsOffload id x) :
    ∃ n st c, s.engine.graph.node? id = some n ∧ s.known? id = some st ∧ st.cached = some c ∧
      x.rows.length = c.value.rowCount ∧ x.columns.map (·.1) = n.columns := by
  obtain ⟨n, st, c, u, hn, hst, hc, hu, hload⟩ := h
  exact ⟨n, st, c, hn, hst, hc,
    hload.rows_length.trans (Result.rowCount_toTable hu hload.columns_ne_nil), hload.names⟩

/-- A result is read into memory, under a guard for what was estimated. -/
structure ReadsIn (s : Site) (id : NodeId) (estimated : UInt64) (value : Result) (m : Mounted)
    (g : Guard) (b : Budget) : Prop where
  available : estimated ≤ s.engine.available
  acquired : s.engine.budget.acquire estimated "readback" = .ok (g, b)
  disk : m.disk = s.disk
  writes : s.mounted.Writes (s.engine.graph.tableName id) m
  value : s.IsReadBack id value

/-- What is read back has as many rows as the table. -/
theorem IsReadBack.rowCount {value : Result} (h : s.IsReadBack id value) {x : StoredTable}
    (hx : s.tableOf? id = some x) : value.rowCount = x.rows.length := by
  obtain ⟨n, c, r, u, -, hc, hread, hu, rfl⟩ := h
  rw [Node.rowCount_resultOf]
  exact Database.rowCount_readAll (Graph.isListingName_tableName _ _)
    ((Mounted.table?_eq (m := s.mounted) hc _).symm.trans hx) hread hu

end Site

namespace Engine

variable {s : Site} {id : NodeId} {n : Node}

theorem isReportable_of_isRefusal {e : StoreError} (h : Store.IsRefusal e) :
    (EngineError.store e).IsReportable := by
  rcases h with rfl | rfl <;> trivial

/-! ## Loading into the store -/

theorem offload_ends (hs : s.Sound) (hn : s.engine.graph.node? id = some n) (hu : s.MayUseStore)
    (hi : s.engine.view.inMemory id = true) (hr : s.engine.view.relational id = false) :
    Ends (offload id) s
      (fun _ t => s.Progress (id + 1) t ∧ t.engine.view.relational id = true ∧
        ∀ i, t.engine.view.inMemory i = s.engine.view.inMemory i)
      (s.Fails id) := by
  obtain ⟨st, c, hst, hc⟩ := Site.known?_of_inMemory hi
  rw [offload, ends_bind, ends_ask, Site.cachedValue_of_cached hst hc]
  dsimp only
  rw [ends_bind, ends_node hn, ends_bind, ends_ask]
  cases ht : (liftM (c.value.toTable n.columns) : Except EngineError Table) with
  | error e =>
    exact s.fails_of_isReportable _ (Graph.failsOnly_liftFrame Result.toTable_failsOnly e ht)
  | ok t =>
    dsimp only
    rw [ends_bind, ends_onStore, Graph.name_of_node? hs.graph hn]
    refine (Store.bulkLoad_ends hs.valid).mono ?_ ?_
    · rintro - m ⟨hw, x, hx, hload⟩
      refine (ends_markRelational (by exact hst)).2 ?_
      have hg : m.store.generation = s.engine.store.generation := hw.generation
      have move := Move.loaded m x hu hi hr hw hx ⟨n, st, c, t, hn, hst, hc, mapError_eq_ok.1 ht, hload⟩
      rw [← hg] at move
      refine ⟨⟨.single move, fun i => Site.computing_modify fun _ => rfl⟩, ?_, fun i => ?_⟩
      · exact Site.relational_marked (s := s.withMounted m) hst
      · exact Site.inMemory_modify fun _ => rfl
    · rintro e m ⟨hw, he⟩
      refine ⟨⟨.single (.storeFailed m hw fun h => ?_), fun i => rfl⟩,
        .inl (isReportable_of_isRefusal he)⟩
      simp [hr] at h

/-! ## Creating in the store -/

/-- A statement that reads tables of the store only has the same result over all databases that
differ in the table of its own node. -/
theorem resultOf?_agrees (hs : s.Sound) (hn : s.engine.graph.node? id = some n)
    (hst : n.op.hasStatement = true) {body : Sql.Compound}
    (hbody : s.engine.graph.compound id = .ok body)
    (hdeps : ∀ d ∈ n.op.tables, s.engine.view.relational d = true) {c : DatabaseId}
    (hc : s.engine.store.connection = some c) {db : Database}
    (h : Database.AgreesBut (s.engine.graph.tableName id) (s.disk.database c) db) :
    db.resultOf? ⟨[], body⟩ = (s.disk.database c).resultOf? ⟨[], body⟩ := by
  refine Database.resultOf?_congr (congrFun h.plans _) fun name hname => ?_
  obtain ⟨body', hbody', hnames⟩ := Graph.compound_spec hs.graph hn hst
  rw [hbody, Except.ok.injEq] at hbody'
  subst hbody'
  have hname : name ∈ body.names := hname
  rw [hnames] at hname
  obtain ⟨d, hd, rfl⟩ := List.mem_map.1 hname
  obtain ⟨x, hx⟩ := Option.isSome_iff_exists.1 (hs.table (hdeps d hd))
  rw [Site.tableOf?, Mounted.table?_eq (c := c) hc] at hx
  have hlt : d < id := hs.graph.input_lt hn d (Op.mem_inputs_of_mem_tables hd)
  exact ⟨Graph.isListingName_tableName _ _, x, x,
    (h.table _ (Graph.sameName_tableName_ne (Nat.ne_of_lt hlt))).trans hx, hx, rfl⟩

/-- A query that reads tables of the store and its own named results only still knows what it reads
once the table of its node is gone. -/
theorem knowsSources_agrees (hs : s.Sound) {q : Sql.Query}
    (hread : ∀ isKnown : String → Bool,
      (∀ d, d < id → s.engine.view.relational d = true →
        isKnown (s.engine.graph.tableName d) = true) →
      Sql.readsOnly isKnown q.named q.body = true)
    {c : DatabaseId} (hc : s.engine.store.connection = some c) {db : Database}
    (h : Database.AgreesBut (s.engine.graph.tableName id) (s.disk.database c) db) :
    db.knowsSources q = true := by
  refine hread _ fun d hd hr => ?_
  obtain ⟨x, hx⟩ := Option.isSome_iff_exists.1 (hs.table hr)
  rw [Site.tableOf?, Mounted.table?_eq (c := c) hc] at hx
  rw [Database.relation?, Database.relationWith?_of_table? _ (Graph.isListingName_tableName _ _)
    ((h.table _ (Graph.sameName_tableName_ne (Nat.ne_of_lt hd))).trans hx)]
  rfl

/-- A table can be created as soon as all ancestors are supplied. If it counts already, it is created
again with the contents that it has, or stays. -/
theorem createRelational_ends (hs : s.Sound) (hn : s.engine.graph.node? id = some n)
    (hst : n.op.hasStatement = true) (hu : s.MayUseStore) (hi : s.engine.view.inMemory id = false)
    (hsup : ∀ d, s.engine.graph.Required .relational s.engine.view id d →
      s.engine.view.relational d = false → s.engine.graph.Supplied s.engine.view d)
    (hall : s.engine.config.materializeIntermediates = true →
      ∀ d, s.engine.graph.Required .relational s.engine.view id d →
        s.engine.view.relational d = false → s.engine.graph.Has (·.isContainer) d)
    (hagain : s.engine.view.relational id = true →
      s.engine.config.materializeIntermediates = true ∧ s.Reproducible id) :
    Ends (createRelational id) s
      (fun _ t => s.Progress (id + 1) t ∧ t.engine.view.relational id = true ∧
        ∀ i, t.engine.view.inMemory i = s.engine.view.inMemory i)
      (s.Fails id) := by
  obtain ⟨st, hst'⟩ := hs.known hn
  obtain ⟨q, hq, hbody, hread, hnone⟩ :=
    Graph.query_spec hs.graph hs.skipsGroupings hn hst hsup
  have hname := Graph.name_of_node? hs.graph hn
  -- Where everything is materialized, the query is the node's own statement over tables.
  have bare (hm : s.engine.config.materializeIntermediates = true) :
      q = ⟨[], q.body⟩ ∧ ∀ d ∈ n.op.tables, s.engine.view.relational d = true := by
    refine ⟨by rw [← hnone (hall hm)], fun d hd => ?_⟩
    refine Classical.byContradiction fun hr => ?_
    rw [Bool.not_eq_true] at hr
    have hreq := Graph.required_of_mem_tables hs.graph hs.skipsGroupings (b := .relational) hn hd
    obtain ⟨m, hm, hcont⟩ := hall hm d hreq hr
    obtain ⟨m', hm', htable⟩ := (hs.graph.linked hn).has_table hst hd
    rw [hm, Option.some.injEq] at hm'
    subst hm'
    rw [Op.isContainer_of_isTable htable] at hcont
    cases hcont
  have knows {c : DatabaseId} (hc : s.engine.store.connection = some c) {db : Database}
      (h : Database.AgreesBut (s.engine.graph.tableName id) (s.disk.database c) db) :
      db.knowsSources q = true :=
    knowsSources_agrees hs hread hc h
  have again (hr : s.engine.view.relational id = true) {c : DatabaseId}
      (hc : s.engine.store.connection = some c) {db : Database}
      (h : Database.AgreesBut (s.engine.graph.tableName id) (s.disk.database c) db) :
      ∃ tbl, s.tableOf? id = some tbl ∧ db.resultOf? q = some tbl.content ∧
        q.isAccepted Sql.Query.belowCreateTable = true ∧
        ∃ db₀, Database.isFree db₀ (s.engine.graph.tableName id) = true := by
    obtain ⟨hm, n', body, c', tbl, -, -, hbody', hacc, hfree, -, hc', htbl, hres⟩ := hagain hr
    rw [hbody, Except.ok.injEq] at hbody'
    rw [hc, Option.some.injEq] at hc'
    subst hbody' hc'
    obtain ⟨hq₀, hdeps⟩ := bare hm
    rw [← hq₀] at hacc
    refine ⟨tbl, htbl, ?_, hacc, hfree⟩
    rw [hq₀, resultOf?_agrees hs hn hst hbody hdeps hc h, hres]
  have hq' : (liftM (s.engine.graph.query id s.engine.view) : Except EngineError Sql.Query) =
      .ok q := by
    rw [hq]
    rfl
  rw [createRelational, ends_bind, ends_ask, hq']
  dsimp only
  rw [ends_bind, ends_node hn, ends_bind, ends_onStore, hname]
  refine (Store.createTableAs_ends hs.valid).mono ?_ ?_
  · rintro - m ⟨hw, c, db, tbl, hc, hbut, hfree, hacc, htbl, hres⟩
    have hgen : m.store.generation = s.engine.store.generation := hw.generation
    have hconn : m.store.connection = some c := hw.connection.trans hc
    rw [ends_bind, ends_onStore]
    refine Store.rowCount_ends.mono ?_ ?_
    · rintro rows m' ⟨rfl, c', hc', hrows⟩
      obtain rfl : c = c' := Option.some.inj (hconn.symm.trans hc')
      have hcount := Database.rowCount?_of_table? (Graph.isListingName_tableName _ _)
        ((Mounted.table?_eq hconn _).symm.trans htbl)
      obtain rfl : tbl.rows.length = rows := Option.some.inj (hcount.symm.trans hrows)
      rw [ends_bind]
      refine (ends_markRelational (by exact hst')).2 ?_
      refine (ends_updateState (Site.known?_modify_self (by exact hst') _)).2 ?_
      rw [Site.modify_modify]
      have move := Move.created m tbl hu ⟨n, hn, hst⟩ hw htbl
        ⟨q, c, db, hq, hc, hbut, hres, hread⟩ (fun hr => ?_) (fun hm => ?_) hi
      · rw [← hgen] at move
        refine ⟨⟨.single move, fun i => Site.computing_modify fun _ => rfl⟩, ?_, fun i => ?_⟩
        · rw [Site.relational_eq, Site.known?_modify_self (by exact hst')]
          exact beq_self_eq_true _
        · exact Site.inMemory_modify fun _ => rfl
      · obtain ⟨tbl', htbl', hres', -⟩ := again hr hc hbut
        rw [htbl', Option.map_some, ← hres', hres]
      · obtain ⟨hq₀, hdeps⟩ := bare hm
        rw [hq₀] at hacc hres
        refine ⟨n, q.body, c, tbl, hn, hst, hbody, hacc, ⟨db, hfree⟩, fun d hd => ?_, hconn, htbl, ?_⟩
        · have hlt : d < id := hs.graph.input_lt hn d (Op.mem_inputs_of_mem_tables hd)
          rw [Site.relational_eq, Site.known?_modify_ne (Nat.ne_of_gt hlt)]
          exact (Site.relational_withMounted hgen d).trans (hdeps d hd)
        · rw [← hres, resultOf?_agrees hs hn hst hbody hdeps hc hbut]
          exact resultOf?_agrees hs hn hst hbody hdeps hc (hw.tables c hc)
    · rintro e m' ⟨rfl, -, hcount⟩
      have hcount : (m.disk.database c).rowCount? (s.engine.graph.tableName id) = none :=
        hcount c hconn
      rw [Mounted.table?_eq hconn] at htbl
      rw [Database.rowCount?, Database.relation?, Database.relationWith?_of_table? _
        (Graph.isListingName_tableName _ _) htbl] at hcount
      cases hcount
  · rintro e m ⟨hw, hcannot, he⟩
    refine ⟨⟨.single (.storeFailed m hw fun hr => ?_), fun i => rfl⟩, .inl ?_⟩
    · rcases hcannot with rfl | ⟨c, db, hc, hbut, hgone, hk | hcreate⟩
      · rfl
      · rw [knows hc hbut] at hk
        cases hk
      · obtain ⟨tbl, -, hres, hacc, db₀, hfree⟩ := again hr hc hbut
        obtain ⟨db', hdb'⟩ :=
          Database.createTableAs?_isSome hacc (Database.isFree_congr hfree hgone) hres
        rw [hcreate] at hdb'
        cases hdb'
    · rcases he with he | ⟨-, c, db, hc, hbut, hk⟩
      · exact isReportable_of_isRefusal he
      · rw [knows hc hbut] at hk
        cases hk

/-! ## Evaluating -/

theorem evaluateNode_ends (hs : s.Sound) (hn : s.engine.graph.node? id = some n) (hu : s.MayEvaluate id)
    (hsource : n.op.isSource = false) (hgroup : n.op.isContainer = false)
    (hi : s.engine.view.inMemory id = false) (hr : s.engine.view.relational id = false)
    (ho : s.engine.view.outOfMemory id = false)
    (hreads : ∀ d ∈ n.op.reads, s.engine.view.inMemory d = true) :
    Ends (evaluateNode id) s
      (fun _ t => s.Progress (id + 1) t ∧ t.engine.view.inMemory id = true) (s.Fails id) := by
  obtain ⟨st, hst⟩ := hs.known hn
  rw [evaluateNode, ends_bind, ends_ask]
  cases hv : s.engine.graph.evaluate s.engine.cachedValue id with
  | error e =>
    refine ⟨.refl _ _, Or.imp_right (fun h => ⟨id, .inl rfl, hi, h⟩) ?_⟩
    refine Graph.evaluate_failsOnly hs.graph hn hsource hgroup (fun d hd => ?_) e hv
    obtain ⟨std, c, hstd, hc⟩ := Site.known?_of_inMemory (hreads d hd)
    rw [Site.cachedValue_of_cached hstd hc]
    exact failsOnly_ok _
  | ok value =>
    dsimp only
    rw [ends_bind, ends_acquireUnchecked]
    refine (ends_keep (by exact hst)).2 ?_
    exact ⟨⟨.single (.evaluated value hu hi hv hr ho), fun i => Site.computing_modify fun _ => rfl⟩,
      Site.inMemory_keeping (by exact hst)⟩

/-! ## Reading from the store -/

/-- A result is found too large, or it is read and the guard for the estimate resized. If the store fails,
the guard is released. -/
theorem readIfFits_spec (hs : s.Sound) (hn : s.engine.graph.node? id = some n) (rows : UInt64) :
    Ends (readIfFits id n rows) s
      (fun _ t =>
        t = s.modify id (fun st =>
          { st with outOfMemory := true, estimated := n.schema.estimateBytes rows, rows := some rows }) ∨
        ∃ value m g b, s.ReadsIn id (n.schema.estimateBytes rows) value m g b ∧
          t = ((s.withMounted m).withBudget (b.resizeUnchecked g value.footprint).2).modify id
            (.keeping rows value (b.resizeUnchecked g value.footprint).1))
      (fun e t => e.IsReportable ∧ ∃ g b, n.schema.estimateBytes rows ≤ s.engine.available ∧
        s.engine.budget.acquire (n.schema.estimateBytes rows) "readback" = .ok (g, b) ∧
        t = s.withBudget (b.release g)) := by
  obtain ⟨st, hst⟩ := hs.known hn
  rw [readIfFits, ends_bind, ends_get]
  refine Ends.ite (fun _ => ?_) fun hfits => ?_
  · rw [ends_updateState hst]
    exact .inl rfl
  · have ha := UInt64.not_lt.1 hfits
    obtain ⟨b, hb, -⟩ := Budget.acquire_of_available ha "readback"
    rw [ends_bind, ends_acquire, hb]
    dsimp only
    rw [ends_bind, ends_guarding, ends_onStore]
    refine Store.readTable_ends.mono ?_ ?_
    · rintro t m ⟨hd, hw, c, r, hc, hread, ht⟩
      rw [Graph.name_of_node? hs.graph hn] at hw hread
      have hx : s.IsReadBack id (n.resultOf t) := ⟨n, c, r, t, hn, hc, hread, ht, rfl⟩
      rw [ends_bind, ends_resize]
      refine (ends_keep (by exact hst)).2 ?_
      exact .inr ⟨n.resultOf t, m, _, b, ⟨ha, hb, hd, hw, hx⟩, rfl⟩
    · rintro e m ⟨rfl, he⟩
      exact ⟨he, _, b, ha, rfl, rfl⟩

theorem readIfFits_ends (hs : s.Sound) (hn : s.engine.graph.node? id = some n)
    (hi : s.engine.view.inMemory id = false) (hr : s.engine.view.relational id = true)
    (ho : s.engine.view.outOfMemory id = false) {rows : UInt64} (hrows : s.Records id rows) :
    Ends (readIfFits id n rows) s
      (fun _ t => s.Progress (id + 1) t ∧
        (t.engine.view.inMemory id = true ∨ t.engine.view.outOfMemory id = true))
      (s.Fails id) := by
  obtain ⟨st, hst⟩ := hs.known hn
  refine (readIfFits_spec hs hn rows).mono ?_ ?_
  · rintro - t (rfl | ⟨value, m, g, b, h, rfl⟩)
    · refine ⟨⟨.single (.foundTooLarge rows _ hi hr hrows ho), fun i => Site.computing_modify fun _ => rfl⟩,
        .inr ?_⟩
      rw [Site.outOfMemory_eq, Site.known?_modify_self hst]
      rfl
    · exact ⟨⟨.single (.readBack rows _ value g b m hi hr h.available h.acquired h.disk h.writes ho hrows
        h.value), fun i => Site.computing_modify fun _ => rfl⟩, .inl (Site.inMemory_keeping (by exact hst))⟩
  · rintro e t ⟨he, g, b, ha, hb, rfl⟩
    exact ⟨⟨.single (.readFailed _ _ _ ha hb), fun i => rfl⟩, .inl he⟩

theorem readBack_ends (hs : s.Sound) (hn : s.engine.graph.node? id = some n)
    (hi : s.engine.view.inMemory id = false) (hr : s.engine.view.relational id = true)
    (ho : s.engine.view.outOfMemory id = false) :
    Ends (readBack id) s
      (fun _ t => s.Progress (id + 1) t ∧
        (t.engine.view.inMemory id = true ∨ t.engine.view.outOfMemory id = true))
      (s.Fails id) := by
  obtain ⟨st, hst⟩ := hs.known hn
  rw [readBack, ends_bind, ends_node hn, ends_bind, ends_state hst]
  cases hrows : st.rows with
  | some rows =>
    refine readIfFits_ends hs hn hi hr ho fun {st' k} hst' hk => ?_
    rw [hst, Option.some.injEq] at hst'
    subst hst'
    exact Option.some.inj (hk.symm.trans hrows)
  | none =>
    dsimp only
    rw [ends_bind, ends_onStore]
    refine Store.rowCount_ends.mono ?_ ?_
    · rintro rows m ⟨rfl, -⟩
      refine readIfFits_ends hs hn hi hr ho fun {st' k} hst' hk => ?_
      rw [hst, Option.some.injEq] at hst'
      subst hst'
      rw [hrows] at hk
      cases hk
    · rintro e m ⟨rfl, he, -⟩
      exact s.fails_of_isReportable _ (isReportable_of_isRefusal he)

end Engine
end LazyQuery
