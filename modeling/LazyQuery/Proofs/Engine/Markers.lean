import LazyQuery.Proofs.Engine.States
import LazyQuery.Proofs.Sql.Answer

/-!
# Tables that count

A node that counts as being in the store has its table there.

* `Site.Tallied` says that the numbers of rows that are recorded are right: for what is in memory and
  for tables that count.
* `Site.Labelled` says what the columns of a table that counts are called. A table that is created
  from a query does not take every name: if the columns of all nodes that a node hangs on can be kept,
  its table has the node's columns, or the names that a created table gets for them (`Node.Labels`).
* `Engine.run_marked` says both of every table that counts, whatever has been asked of the engine.

A table comes to count by a move of its own (`Move.stored`), and keeps its contents as long as it
counts. That it is created with the right columns is `Graph.query_names`, with what holds of the tables
of earlier nodes before the move.
-/

set_option autoImplicit false

namespace LazyQuery

open Sql

/-- The names of the columns of a table. -/
def StoredTable.names (x : StoredTable) : List String := x.columns.map (·.1)

theorem StoredTable.names_relation (x : StoredTable) : x.relation.names = x.names := by
  rw [Relation.names, relation, Relation.numbered, Relation.ofTable, List.map_map]
  rfl

/-- The columns of the table are those of the node, or what they become in a table that is created. -/
def Node.Labels (n : Node) (x : StoredTable) : Prop :=
  x.names = n.columns ∨ ∃ plan, x.names = tableNames plan [] 0 n.columns

theorem Node.Labels.names {n : Node} {x : StoredTable} (h : n.Labels x) (hk : n.schema.IsKept) :
    x.names = n.columns :=
  h.elim (fun h => h) fun ⟨plan, h⟩ => h.trans (hk.tableNames plan)

namespace Site

variable {s t : Site} {id : NodeId}

/-! ## Numbers of rows -/

/-- The number of rows of a node is that of its result in memory, and that of its table if it counts. -/
structure Tallied (s : Site) : Prop where
  cached : ∀ {i st c}, s.known? i = some st → st.cached = some c →
    st.rows = some (UInt64.ofNat c.value.rowCount)
  stored : ∀ {i st x}, s.known? i = some st → s.engine.view.relational i = true →
    s.tableOf? i = some x → st.rows = some (UInt64.ofNat x.rows.length)

/-- Nothing is wrong of a node of which nothing that matters has changed. -/
theorem Tallied.of_node (h : s.Tallied)
    (hn : ∀ i st', t.known? i = some st' → ((∀ c, st'.cached = some c →
        st'.rows = some (UInt64.ofNat c.value.rowCount)) ∧
      ∀ x, t.engine.view.relational i = true → t.tableOf? i = some x →
        st'.rows = some (UInt64.ofNat x.rows.length)) ∨
      t.known? i = s.known? i ∧ t.engine.view.relational i = s.engine.view.relational i ∧
        t.tableOf? i = s.tableOf? i) : t.Tallied := by
  refine ⟨fun {i st' c} hst hc => ?_, fun {i st' x} hst hr hx => ?_⟩
  · rcases hn i st' hst with h' | ⟨hknown, -, -⟩
    · exact h'.1 c hc
    · exact h.cached (hknown ▸ hst) hc
  · rcases hn i st' hst with h' | ⟨hknown, hrel, htable⟩
    · exact h'.2 x hr hx
    · exact h.stored (hknown ▸ hst) (hrel ▸ hr) (htable ▸ hx)

theorem Tallied.move (h : s.Tallied) (hs : s.Sound) (hm : Move s id t) : t.Tallied := by
  refine h.of_node fun i st' hst' => ?_
  by_cases hi : i = id
  · subst hi
    refine .inl ?_
    have known {u : Site} {f : NodeState → NodeState} (hu : u.known? i = s.known? i)
        (hst' : (u.modify i f).known? i = some st') : ∃ st, s.known? i = some st ∧ st' = f st := by
      obtain ⟨-, st, hst, rfl⟩ | ⟨hne, -⟩ := of_known?_modify hst'
      · exact ⟨st, hu ▸ hst, rfl⟩
      · exact absurd rfl hne
    cases hm with
    | flag b =>
      obtain ⟨st, hst, rfl⟩ := known rfl hst'
      refine ⟨fun c hc => ?_, fun x hr hx => ?_⟩
      · have := h.cached hst hc
        exact this
      · have := h.stored hst ((relational_flagged s i b i).symm.trans hr) hx
        exact this
    | evaluated value _ hmem hv hr =>
      obtain ⟨st, hst, rfl⟩ := known rfl hst'
      refine ⟨fun c hc => ?_, fun x hr' hx => ?_⟩
      · cases hc
        rfl
      · have := (relational_modify (f := .keeping _ value _) fun _ => rfl).symm.trans hr'
        exact absurd (hr.symm.trans this) Bool.false_ne_true
    | foundTooLarge rows estimated hmem hr hn =>
      obtain ⟨st, hst, rfl⟩ := known rfl hst'
      refine ⟨fun c hc => ?_, fun x _ hx => ?_⟩
      · have hnone := Move.cached_of_inMemory hst hmem
        rw [show st.cached = some c from hc] at hnone
        cases hnone
      · have hrows := h.stored hst hr hx
        exact (congrArg some (hn hst hrows)).symm
    | readFailed =>
      exact ⟨fun c hc => h.cached hst' hc, fun x hr hx => h.stored hst' hr hx⟩
    | readBack rows estimated value g b m hmem hr ha hb hd hw ho hn hx =>
      obtain ⟨st, hst, rfl⟩ := known rfl hst'
      obtain ⟨x, htable⟩ := Option.isSome_iff_exists.1 (hs.table hr)
      have hrows := hn hst (h.stored hst hr htable)
      refine ⟨fun c hc => ?_, fun y _ hy => ?_⟩
      · cases hc
        exact congrArg some (by rw [← hrows, hx.rowCount htable])
      · have hsame : s.tableOf? i = some y := by
          rw [← hy]
          change s.mounted.table? _ = m.table? _
          rw [Mounted.table?, Mounted.table?, hd, hw.connection]
          rfl
        exact congrArg some (by rw [← hrows, Option.some.inj (htable.symm.trans hsame)])
    | loaded m x hu hmem hr hw ht hx =>
      obtain ⟨st, hst, rfl⟩ := known rfl hst'
      refine ⟨fun c hc => by have := h.cached hst hc; exact this, fun y _ hy => ?_⟩
      obtain ⟨n, st₀, c, -, hst₀, hc, hlength, -⟩ := hx.counts
      rw [hst, Option.some.injEq] at hst₀
      subst hst₀
      obtain rfl : x = y := Option.some.inj (ht.symm.trans hy)
      exact (h.cached hst hc).trans (by rw [hlength])
    | created m x hu hstatement hw ht hx hr hp hmem =>
      obtain ⟨st, hst, rfl⟩ := known rfl hst'
      refine ⟨fun c hc => ?_, fun y _ hy => ?_⟩
      · have hnone := Move.cached_of_inMemory hst hmem
        rw [show st.cached = some c from hc] at hnone
        cases hnone
      · rw [Option.some.inj (ht.symm.trans hy)]
    | storeFailed m hw hr =>
      refine ⟨fun c hc => h.cached hst' hc, fun x hr' hx => ?_⟩
      have hr' := (relational_withMounted hw.generation i).symm.trans hr'
      have hcontent := hr hr'
      rw [show m.table? (s.engine.graph.tableName i) = some x from hx, Option.map_some, eq_comm,
        Option.map_eq_some_iff] at hcontent
      obtain ⟨y, hy, hcontent⟩ := hcontent
      have hrows : y.rows = x.rows := congrArg Prod.snd hcontent
      rw [h.stored hst' hr' hy, hrows]
  · exact .inr (hm.changes.elsewhere hi)

/-! ## Names of columns -/

/-- The tables that count have the columns of their nodes, if those of all nodes that they hang on can
be kept. -/
def Labelled (s : Site) : Prop :=
  ∀ ⦃i n x⦄, s.engine.view.relational i = true → s.engine.graph.node? i = some n →
    s.tableOf? i = some x → s.engine.graph.KeepsBelow i → n.Labels x

/-- A table that is created has the columns that a created table gets for those of its node. -/
theorem Answers.names (h : s.Labelled) (hs : s.Sound) {n : Node}
    (hn : s.engine.graph.node? id = some n) (hst : n.op.hasStatement = true)
    (hkept : s.engine.graph.KeepsBelow id)
    {x : StoredTable} (hx : s.Answers id x) : ∃ plan, x.names = tableNames plan [] 0 n.columns := by
  obtain ⟨q, c, db, hq, hc, hbut, hres, hread⟩ := hx
  obtain ⟨hbody, hnamed⟩ := Graph.defines_of_query hs.graph hn hq
  obtain ⟨r, hr', hcontent⟩ := Option.map_eq_some_iff.1 hres
  have shows : s.engine.graph.Shows id (s.engine.graph.isStored s.engine.view)
      (db.catalogWith db.listingWithPending q) := by
    intro t m p ht hm hknown hp
    have hlt : t < id := ht.lt hs.graph
    rw [Graph.name_of_node? hs.graph hm] at hknown hp
    rw [Graph.isStored_tableName (Graph.lt_size_of_node? hm)] at hknown
    obtain ⟨y, hy⟩ := Option.isSome_iff_exists.1 (hs.table hknown)
    have hlabels := h hknown hm hy fun d m' hd hm' => hkept (ht.trans hd) hm'
    rw [tableOf?, Mounted.table?_eq (c := c) hc] at hy
    have hfound := Database.relationWith?_of_table? db.listingWithPending
      (Graph.isListingName_tableName _ _)
      ((hbut.table _ (Graph.sameName_tableName_ne (Nat.ne_of_lt hlt))).trans hy)
    obtain rfl := Option.some.inj (hfound.symm.trans hp)
    rw [StoredTable.names_relation]
    exact hlabels.names (hkept ht hm)
  have hstored := hread (s.engine.graph.isStored s.engine.view) fun d hd hr => by
    rw [Graph.isStored_tableName (Nat.lt_trans hd (Graph.lt_size_of_node? hn)), hr]
  have hnames := Graph.query_names hs.graph hn hst hkept hbody hnamed.names hstored shows hr'
  refine ⟨db.plans q, ?_⟩
  rw [← hnames, ← names_asTable, StoredTable.names,
    show x.columns = _ from (congrArg Prod.fst hcontent).symm, Relation.names, List.map_map]
  rfl

theorem Labelled.move (h : s.Labelled) (hs : s.Sound) (hm : Move s id t) : t.Labelled := by
  intro i n x hr hn hx hkept
  have hk := hm.keeps
  rw [hk.graph] at hn hkept
  cases hr' : s.engine.view.relational i with
  | true =>
    have hcontent := hk.content hr'
    rw [hx, Option.map_some, eq_comm, Option.map_eq_some_iff] at hcontent
    obtain ⟨y, hy, hcontent⟩ := hcontent
    have hlabels := h hr' hn hy hkept
    rwa [Node.Labels, StoredTable.names, show y.columns = x.columns from congrArg Prod.fst hcontent]
      at hlabels
  | false =>
    obtain ⟨rfl, y, hy, hcame⟩ := hm.stored hr' hr
    obtain rfl : y = x := Option.some.inj (hy.symm.trans hx)
    rcases hcame with ⟨-, hload⟩ | ⟨⟨n', hn', hst⟩, ha, -⟩
    · obtain ⟨n', st, c, hn', -, -, -, hnames⟩ := hload.counts
      rw [hn, Option.some.injEq] at hn'
      subst hn'
      exact .inl hnames
    · rw [hn, Option.some.injEq] at hn'
      subst hn'
      exact .inr (ha.names h hs hn hst hkept)

/-! ## Turns -/

/-- The tables that count are as they should be. -/
structure Tracked (s : Site) : Prop where
  tallied : s.Tallied
  labelled : s.Labelled

variable {e : Option NodeId} {y : Option Table}

theorem Tracked.moves {bound : NodeId} (h : s.Tracked) (hs : s.Sound) (hm : Moves bound s t) :
    t.Tracked := by
  induction hm with
  | refl => exact h
  | tail hfront hm ih =>
    obtain ⟨i, -, hm⟩ := hm
    have hsound := Moves.sound hfront hs
    exact ⟨ih.tallied.move hsound hm, ih.labelled.move hsound hm⟩

theorem tableOf?_grown {g : Graph} (hg : s.engine.graph.Adds (s.engine.graph.size, g)) (i : NodeId) :
    (s.grown g).tableOf? i = s.tableOf? i := by
  change s.mounted.table? (g.tableName i) = _
  rw [hg.extends.tableName]
  rfl

/-- Nothing is in the store of a node that is new, and old nodes hang on the same nodes. -/
theorem Tracked.grown (h : s.Tracked) (hs : s.Sound) {g : Graph}
    (hg : s.engine.graph.Adds (s.engine.graph.size, g)) : (s.grown g).Tracked := by
  have relational (i : NodeId) : (s.grown g).engine.view.relational i = s.engine.view.relational i :=
    any_known?_grown rfl
  refine ⟨⟨fun hst hc => ?_, fun {i st x} hst hr hx => ?_⟩, fun i n x hr hn hx hkept => ?_⟩
  · rcases known?_grown hst with hst | rfl
    · exact h.tallied.cached hst hc
    · cases hc
  · rw [relational] at hr
    rw [tableOf?_grown hg] at hx
    rcases known?_grown hst with hst' | rfl
    · exact h.tallied.stored hst' hr hx
    · obtain ⟨st, hst'⟩ := known?_of_relational hr
      have hlt : i < s.engine.states.size := (Array.getElem?_eq_some_iff.1 hst').1
      rw [known?_grown_old hlt] at hst
      exact h.tallied.stored hst hr hx
  · rw [relational] at hr
    rw [tableOf?_grown hg] at hx
    obtain ⟨st, hst⟩ := known?_of_relational hr
    have hlt : i < s.engine.graph.size := hs.size ▸ (Array.getElem?_eq_some_iff.1 hst).1
    obtain ⟨m, hm⟩ := Graph.node?_isSome hlt
    obtain rfl : m = n := Option.some.inj ((hg.extends.node hm).symm.trans hn)
    exact h.labelled hr hm hx fun d m' hd hm' => hkept (hd.mono hg.extends) (hg.extends.node hm')

theorem Tracked.supplied (h : s.Tracked) (hs : s.AtRest) {x : Table} {g : Graph}
    (hg : s.engine.graph.addSource x.inferSchema = .ok (s.engine.graph.size, g)) {m : Mounted}
    {z : StoredTable} (hw : s.mounted.Writes (s.engine.graph.tableName s.engine.graph.size) m)
    (ht : m.table? (s.engine.graph.tableName s.engine.graph.size) = some z)
    (hz : z.IsLoaded (x.coerce x.inferSchema) x.inferSchema) : (s.supplied g m x).Tracked := by
  have hadds := Graph.addSource_adds hg
  have hgrown := h.grown hs.sound hadds
  have hch := changesAt_supplied hs hg hw ht
  have own {z' : StoredTable} (hz' : (s.supplied g m x).tableOf? s.engine.graph.size = some z') :
      z' = z := by
    change m.table? (g.tableName _) = some z' at hz'
    rw [hadds.extends.tableName, ht, Option.some.injEq] at hz'
    exact hz'.symm
  refine ⟨hgrown.tallied.of_node fun i st hst => ?_, fun i n z' hr hn hz' hkept => ?_⟩
  · rcases known?_supplied hs.sound hg hst with ⟨rfl, rfl⟩ | ⟨hi, -⟩
    · refine .inl ⟨fun c hc => ?_, fun z' _ hz' => ?_⟩
      · cases hc
        rfl
      · rw [own hz', hz.rows_length]
        rfl
    · exact .inr (hch.elsewhere hi)
  · by_cases hi : i = s.engine.graph.size
    · subst hi
      rw [own hz']
      obtain rfl := Graph.eq_push_of_addSource hg
      rcases Graph.node?_push.1 hn with hn | ⟨-, rfl⟩
      · exact absurd (Graph.lt_size_of_node? hn) (Nat.lt_irrefl _)
      · exact .inl hz.names
    · obtain ⟨-, hrel, htable⟩ := hch.elsewhere hi
      exact hgrown.labelled (hrel ▸ hr) hn (htable ▸ hz') hkept

/-- **Turns keep track of the tables that count.** -/
theorem Tracked.turn (h : s.Tracked) (hs : s.AtRest) (ht : s.Turn e y t) : t.Tracked := by
  cases ht with
  | computed ht => exact h.moves hs.sound ht.moves
  | built g hg ht => exact (h.grown hs.sound hg).moves (hs.sound.grown hg) ht.moves
  | supplied x g hg m z hw hz hx => exact h.supplied hs hg hw hz hx
  | @evicted id n st c hid hn hsource hst hc =>
    have relational (i : NodeId) : ((s.withBudget (s.engine.budget.release c.guard)).modify id
        fun st => { st with cached := none }).engine.view.relational i =
          s.engine.view.relational i :=
      relational_modify fun _ => rfl
    refine ⟨⟨fun {i st' c'} hst' hc' => ?_, fun {i st' x} hst' hr hx => ?_⟩,
      fun i n x hr hn hx hkept => h.labelled ((relational i).symm.trans hr) hn hx hkept⟩
    · rcases of_known?_modify hst' with ⟨-, st, -, rfl⟩ | ⟨-, hst'⟩
      · cases hc'
      · exact h.tallied.cached hst' hc'
    · rw [relational] at hr
      rcases of_known?_modify hst' with ⟨rfl, st, hst, rfl⟩ | ⟨-, hst'⟩
      · have hst : s.known? i = some st := hst
        have := h.tallied.stored hst hr hx
        exact this
      · exact h.tallied.stored hst' hr hx
  | configured => exact ⟨⟨h.tallied.cached, h.tallied.stored⟩, h.labelled⟩
  | remounted m hd hv hk hg =>
    have none {i : NodeId} (hr : (s.withMounted m).engine.view.relational i = true) : False := by
      rw [hs.sound.relational_remounted hg] at hr
      cases hr
    exact ⟨⟨h.tallied.cached, fun _ hr => (none hr).elim⟩, fun _ _ _ hr => (none hr).elim⟩

theorem Elsewhere.tableOf?_eq {d : Disk} (hd : s.Elsewhere d) (i : NodeId) :
    tableOf? { s with disk := d } i = s.tableOf? i := by
  rw [tableOf?, tableOf?, Mounted.table?, Mounted.table?]
  change Option.bind s.engine.store.connection _ = Option.bind s.engine.store.connection _
  cases hc : s.engine.store.connection with
  | none => rfl
  | some c => exact hd.table c hc i

theorem Tracked.elsewhere (h : s.Tracked) {d : Disk} (hd : s.Elsewhere d) :
    Tracked { s with disk := d } :=
  ⟨⟨h.tallied.cached, fun hst hr hx => h.tallied.stored hst hr (hd.tableOf?_eq _ ▸ hx)⟩,
    fun _ _ _ hr hn hx => h.labelled hr hn (hd.tableOf?_eq _ ▸ hx)⟩

end Site

namespace Engine

open Site

theorem start_tracked {disk : Disk} {tag : String} {config : Config} {s : Site} (hd : disk.Valid)
    (h : start disk tag config = .ok s) : s.Tracked := by
  obtain ⟨-, -, -, hstates, -⟩ := start_spec hd h
  have nothing {i : NodeId} {st : NodeState} (hst : s.known? i = some st) : False := by
    rw [known?, hstates] at hst
    cases hst
  refine ⟨⟨fun hst => (nothing hst).elim, fun hst => (nothing hst).elim⟩, fun _ _ _ hr => ?_⟩
  obtain ⟨st, hst⟩ := known?_of_relational hr
  exact (nothing hst).elim

/-- **A node that counts as being in the store has its table there**, whatever has been asked of the
engine: the store is open, and in its database is a table of the node's name that has as many rows as
are recorded. If the columns of all nodes that the node hangs on can be kept, the table has the node's
columns, or what they become in a table that is created; and these are the same if the node's own can
be kept. -/
theorem run_marked {disk : Disk} {tag : String} {config : Config} {s₀ s : Site} {base : BaseTables}
    (hd : disk.Valid) (hstart : start disk tag config = .ok s₀)
    (hs : Run (fun _ => True) s₀ (fun _ => none) s base) {i : NodeId}
    (hr : s.engine.view.relational i = true) :
    ∃ c n st x, s.engine.store.connection = some c ∧ s.engine.graph.node? i = some n ∧
      s.known? i = some st ∧ (s.disk.database c).table? n.name = some x ∧
      st.rows = some (UInt64.ofNat x.rows.length) ∧
      (s.engine.graph.KeepsBelow i → n.Labels x ∧ (n.schema.IsKept → x.names = n.columns)) := by
  have hrest₀ := (start_spec hd hstart).1
  have hrest := hs.atRest hrest₀
  have htracked := hs.rec_turn (motive := fun s _ => s.Tracked) hrest₀ (start_tracked hd hstart)
    (fun hu ht _ h => h.turn hu ht) fun hd h => h.elsewhere hd
  obtain ⟨st, hst⟩ := known?_of_relational hr
  have hlt : i < s.engine.graph.size := hrest.sound.size ▸ (Array.getElem?_eq_some_iff.1 hst).1
  obtain ⟨n, hn⟩ := Graph.node?_isSome hlt
  obtain ⟨x, hx⟩ := Option.isSome_iff_exists.1 (hrest.sound.table hr)
  obtain ⟨c, hc, hcx⟩ := Option.bind_eq_some_iff.1 hx
  refine ⟨c, n, st, x, hc, hn, hst, ?_, htracked.tallied.stored hst hr hx, fun hkept => ?_⟩
  · rw [Graph.name_of_node? hrest.sound.graph hn]
    exact hcx
  · have hlabels := htracked.labelled hr hn hx hkept
    exact ⟨hlabels, hlabels.names⟩

theorem run_marked_supplied :
    ∃ (s : Site) (n : Node) (c : DatabaseId) (st : NodeState) (x : StoredTable),
      s.engine.store.connection = some c ∧ s.engine.graph.node? 0 = some n ∧
        s.known? 0 = some st ∧ (s.disk.database c).table? n.name = some x ∧
        st.rows = some (UInt64.ofNat x.rows.length) ∧ x.names = n.columns := by
  -- A base table counts as soon as it is added, and it hangs on nothing.
  have runs : ∃ s₀ s base n, start .empty "a" (Config.standard.withStrategy .never) = .ok s₀ ∧
      Run (fun _ => True) s₀ (fun _ => none) s base ∧ s.engine.view.relational 0 = true ∧
      s.engine.graph.node? 0 = some n ∧ n.schema.names = ["k"] :=
    ⟨_, _, _, _, rfl, .step .refl (.done (.addTable ⟨[⟨"k", [.int 1]⟩]⟩) rfl) trivial,
      rfl, rfl, rfl⟩
  obtain ⟨s₀, s, base, n, hstart, hs, hr, hn, hnames⟩ := runs
  obtain ⟨c, n', st, x, hc, hn', hst, hx, hrows, hkeeps⟩ :=
    run_marked Disk.valid_empty hstart hs hr
  obtain rfl : n = n' := Option.some.inj (hn.symm.trans hn')
  have hgraph := (hs.atRest (start_spec Disk.valid_empty hstart).1).sound.graph
  have hkept : n.schema.IsKept := by
    refine ⟨?_, ?_⟩
    · rw [Schema.Apart, hnames]
      exact List.pairwise_singleton _ _
    · rw [hnames]
      decide
  exact ⟨s, n, c, st, x, hc, hn, hst, hx, hrows,
    (hkeeps fun t _ ht => absurd (ht.lt hgraph) (Nat.not_lt_zero t)).2 hkept⟩

end Engine
end LazyQuery
