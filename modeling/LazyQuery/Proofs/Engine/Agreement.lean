import LazyQuery.Proofs.Engine.Markers
import LazyQuery.Proofs.Store.Holding

/-!
# Results do not hang on the strategy

What a portable node denotes is what is computed for it, in memory and in the store, up to the order of
rows where there are joins: in which order these come is left to the store.

Where nothing is computed in the store, results are just what nodes denote (`Site.Faithful`). Where all
is computed there that can be, what carries the proof is `Site.Truthful`: what is cached of a portable
node, and what its table holds, if it counts, has the rows of what the node denotes.

A move keeps this by what is known of its step alone. There is a statement for a portable table, so that
it is not evaluated; its table is created from a query that reads tables that count
(`Graph.query_holds`), or loaded from what is cached; and what is read back of a table is what it holds
(`Database.coerce_readAll`).
-/

set_option autoImplicit false

namespace LazyQuery

open Sql

/-! ## Results with the same rows -/

/-- The results are the same, or tables with the same rows. -/
def Result.SameRows (v w : Result) : Prop :=
  v = w ∨ ∃ t u, v = table t ∧ w = table u ∧ t.SameRows u

namespace Result.SameRows

variable {v w x : Result}

theorem refl (v : Result) : v.SameRows v := .inl rfl

theorem symm (h : v.SameRows w) : w.SameRows v := by
  rcases h with rfl | ⟨t, u, rfl, rfl, h⟩
  · exact .refl v
  · exact .inr ⟨u, t, rfl, rfl, h.symm⟩

theorem trans (h : v.SameRows w) (h' : w.SameRows x) : v.SameRows x := by
  rcases h with rfl | ⟨t, u, rfl, rfl, h⟩
  · exact h'
  · rcases h' with rfl | ⟨t', u', htable, rfl, h'⟩
    · exact .inr ⟨t, u, rfl, rfl, h⟩
    · cases htable
      exact .inr ⟨t, u', rfl, rfl, h.trans h'⟩

end Result.SameRows

namespace Graph

variable {g : Graph} {base : BaseTables} {id : NodeId} {n : Node} {t u : Table}

/-- A table of one row has it in one order only. -/
theorem Presents.eq_of_rowCount {s : Schema} (h : g.Presents id t u) (ht : t.Conforms s)
    (hcount : t.rowCount = 1) : u = t := by
  obtain ⟨order, horder, rfl, -⟩ := h
  rw [hcount, List.range_one, List.perm_singleton] at horder
  rw [horder, ← List.range_one, ← hcount]
  exact Table.take_range fun _ hc => (Table.conforms_of_mem ht hc).choose_spec.2.length

/-- The results made of tables with the same rows. -/
theorem Presents.resultOf (h : g.Presents id t u) (ht : t.Conforms n.schema) (hd : n.schema.Distinct) :
    (n.resultOf t).SameRows (n.resultOf u) := by
  have hsame := h.sameRows (ht.columns_ne_nil hd.nonempty)
  rw [Node.resultOf, Node.resultOf, Table.coerce_eq ht hd.nodup,
    Table.coerce_eq (h.conforms ht hd.nonempty) hd.nodup]
  split
  · by_cases hcount : t.rowCount = 1
    · rw [h.eq_of_rowCount ht hcount]
      exact .refl _
    · rw [Result.collapse, Result.collapse, if_pos hcount, if_pos (hsame.rowCount ▸ hcount)]
      exact .inr ⟨t, u, rfl, rfl, hsame⟩
  · exact .inr ⟨t, u, rfl, rfl, hsame⟩

/-- There are numbers for all of the rows. -/
theorem Represents.rowCount_lt (h : g.Represents base id n u) (hn : n.IsPortable g base id) :
    u.rowCount < 2 ^ 63 := by
  obtain ⟨t, ht, hu⟩ := h
  have hcount := hn.countable _ ht.2
  rwa [Node.rowCount_resultOf, (hu.sameRows (ht.1.columns_ne_nil hn.nonempty)).rowCount] at hcount

/-- There are relations that hold what nodes denote. -/
theorem exists_catalog (hg : g.WellFormed) (base : BaseTables) : ∃ catalog : Catalog, ∀ ⦃d m t⦄,
    g.node? d = some m → g.Denotes base d m t → g.Held base catalog d := by
  classical
  let IsShown (name : String) (r : Relation) : Prop :=
    ∃ d m t, g.node? d = some m ∧ m.name = name ∧ g.Denotes base d m t ∧ r.Holds t m.schema
  let catalog : Catalog :=
    ⟨fun name => if h : ∃ r, IsShown name r then some h.choose else none, default, none⟩
  refine ⟨catalog, fun d m t hm hden => ?_⟩
  obtain ⟨r, hr⟩ := StoredTable.exists_holds hden.1
  have hex : ∃ r, IsShown m.name r := ⟨r, d, m, t, hm, rfl, hden, hr⟩
  obtain ⟨d', m', t', hm', hname, hden', hholds⟩ := hex.choose_spec
  -- Names of nodes tell them apart.
  obtain rfl : d' = d := by
    have hsame := sameName_self m.name
    nth_rewrite 1 [← hname] at hsame
    rwa [name_of_node? hg hm, name_of_node? hg hm', sameName_tableName] at hsame
  obtain rfl := Option.some.inj (hm.symm.trans hm')
  exact ⟨m, t', _, hm, hden'.represents, dif_pos hex, hholds⟩

/-- **What a portable node denotes is a table** that conforms to its schema. -/
theorem Portable.exists_denotes (hg : g.WellFormed) (hb : g.Based base) (hn : g.node? id = some n)
    (ht : n.op.isTable = true) (hp : g.Portable base id) : ∃ t, g.Denotes base id n t := by
  obtain ⟨catalog, hcatalog⟩ := exists_catalog hg base
  induction id using Nat.strongRecOn generalizing n with
  | ind id ih =>
    cases hs : n.op.isSource with
    | true => exact denotes_source hb hn (hp.node hn) hs
    | false =>
      have hst : n.op.hasStatement = true := by
        have hportable := (hp.node hn).op
        obtain ⟨i, name, op, s⟩ := n
        cases op
        case source => cases hs
        case constant | groupBy | groupProjection => cases ht
        case describe | apply => exact hportable.elim
        all_goals rfl
      obtain ⟨-, ⟨t, hden, -⟩, -⟩ := statement_holds hg hb hn hst ht hp false fun d hd => by
        have hinput := Op.mem_inputs_of_mem_tables hd
        obtain ⟨m, hm, htable⟩ := (hg.linked hn).has_table hst hd
        obtain ⟨t, hden⟩ := ih d (hg.input_lt hn d hinput) hm htable (hp.input hn hinput)
        exact hcatalog hm hden
      exact ⟨t, hden⟩

end Graph

namespace Site

variable {s t : Site} {base : BaseTables} {id : NodeId}

/-- All is to be computed in the store that can be. -/
def Always (s : Site) : Prop := s.engine.config.strategy = some .always

/-- All is computed in the store that can be, and what is computed of portable nodes has the rows of what
they denote. -/
structure Truthful (s : Site) (base : BaseTables) : Prop where
  always : s.Always
  based : s.engine.graph.Based base
  cached : ∀ {i n st c}, s.engine.graph.node? i = some n → n.op.isTable = true →
    s.engine.graph.Portable base i → s.known? i = some st → st.cached = some c →
      ∃ u, s.engine.graph.Represents base i n u ∧ c.value = n.resultOf u
  stored : ∀ {i n x}, s.engine.graph.node? i = some n → n.op.isTable = true →
    s.engine.graph.Portable base i → s.engine.view.relational i = true → s.tableOf? i = some x →
      ∃ u, s.engine.graph.Represents base i n u ∧ x.relation.Holds u n.schema

/-! ## Moves -/

/-- Portable tables are not evaluated, as there are statements for them. -/
theorem Truthful.not_evaluated (h : s.Truthful base) {n : Node} (hn : s.engine.graph.node? id = some n)
    (ht : n.op.isTable = true) (hp : s.engine.graph.Portable base id) {v : Result}
    (hu : s.MayEvaluate id) (hv : s.engine.graph.evaluate s.engine.cachedValue id = .ok v) : False := by
  obtain ⟨n', hn', hst⟩ := hu.resolve_left fun hne => hne h.always
  obtain rfl := Option.some.inj (hn.symm.trans hn')
  have hportable := (hp.node hn).op
  have hst := hst ht
  rw [Graph.evaluate, Graph.node_eq_ok.2 hn] at hv
  obtain ⟨i, name, op, schema⟩ := n
  cases op
  case source => cases hv
  case groupBy | groupProjection => cases ht
  case describe | apply => exact hportable.elim
  all_goals cases hst

/-- What is read back of a portable node's table has the rows of what the node denotes. -/
theorem Truthful.readBack (h : s.Truthful base) (hs : s.Sound) {n : Node}
    (hn : s.engine.graph.node? id = some n) (ht : n.op.isTable = true)
    (hp : s.engine.graph.Portable base id) (hr : s.engine.view.relational id = true) {v : Result}
    (hv : s.IsReadBack id v) : ∃ u, s.engine.graph.Represents base id n u ∧ v = n.resultOf u := by
  obtain ⟨n', c, r, y, hn', hc, hread, hy, rfl⟩ := hv
  obtain rfl := Option.some.inj (hn.symm.trans hn')
  obtain ⟨x, hx⟩ := Option.isSome_iff_exists.1 (hs.table hr)
  obtain ⟨u, hu, hholds⟩ := h.stored hn ht hp hr hx
  rw [tableOf?, Mounted.table?_eq (c := c) hc] at hx
  have hnode := hp.node hn
  have hconf := hu.conforms hnode.distinct
  have hsame : y.coerce n.schema = u := Database.coerce_readAll (Graph.isListingName_tableName _ _) hx
    hholds hconf hnode.kept.apart hnode.ordered (hu.rowCount_lt hnode) hread hy
  refine ⟨u, hu, ?_⟩
  rw [Node.resultOf, Node.resultOf, hsame, Table.coerce_eq hconf hnode.distinct.nodup]

/-- A table that is loaded from memory has the rows of what its node denotes. -/
theorem Truthful.loaded (h : s.Truthful base) {n : Node} (hn : s.engine.graph.node? id = some n)
    (ht : n.op.isTable = true) (hp : s.engine.graph.Portable base id) {x : StoredTable}
    (hx : s.IsOffload id x) :
    ∃ u, s.engine.graph.Represents base id n u ∧ x.relation.Holds u n.schema := by
  obtain ⟨n', st, c, y, hn', hst, hc, hy, hload⟩ := hx
  obtain rfl := Option.some.inj (hn.symm.trans hn')
  obtain ⟨u, hu, hvalue⟩ := h.cached hn ht hp hst hc
  have hconf := hu.conforms (hp.node hn).distinct
  rw [hvalue, Node.toTable_resultOf hconf (hp.node hn).distinct, Except.ok.injEq] at hy
  subst hy
  exact ⟨u, hu, hload.holds hconf⟩

/-- A table that is created in the store has the rows of what its node denotes. -/
theorem Truthful.created (h : s.Truthful base) (hs : s.Sound) {n : Node}
    (hn : s.engine.graph.node? id = some n) (hst : n.op.hasStatement = true)
    (ht : n.op.isTable = true) (hp : s.engine.graph.Portable base id) {x : StoredTable}
    (hx : s.Answers id x) :
    ∃ u, s.engine.graph.Represents base id n u ∧ x.relation.Holds u n.schema := by
  obtain ⟨q, c, db, hq, hc, hbut, hres, hread⟩ := hx
  obtain ⟨r, hr, -⟩ := Option.map_eq_some_iff.1 hres
  have portrays : s.engine.graph.Portrays base id (s.engine.graph.isStored s.engine.view)
      (db.catalogWith db.listingWithPending q) := by
    intro d m hd hm htable hknown
    have hlt : d < id := hd.lt hs.graph
    have hname := Graph.name_of_node? hs.graph hm
    rw [hname, Graph.isStored_tableName (Graph.lt_size_of_node? hm)] at hknown
    obtain ⟨y, hy⟩ := Option.isSome_iff_exists.1 (hs.table hknown)
    obtain ⟨u, hu, hholds⟩ := h.stored hm htable (hp.dependsOn hd) hknown hy
    rw [tableOf?, Mounted.table?_eq (c := c) hc] at hy
    refine ⟨m, u, y.relation, hm, hu, ?_, hholds⟩
    rw [hname]
    exact Database.relationWith?_of_table? _ (Graph.isListingName_tableName _ _)
      ((hbut.table _ (Graph.sameName_tableName_ne (Nat.ne_of_lt hlt))).trans hy)
  have hstored := hread (s.engine.graph.isStored s.engine.view) fun d hd hr => by
    rw [Graph.isStored_tableName (Nat.lt_trans hd (Graph.lt_size_of_node? hn)), hr]
  obtain ⟨u, hu, hholds⟩ :=
    Graph.query_holds hs.graph h.based hn hst ht hp hq hstored portrays hr
  exact ⟨u, hu, Database.holds_of_resultOf? hres hr hholds (hu.conforms (hp.node hn).distinct)
    (hp.node hn).kept⟩

/-- **Moves keep a site truthful.** -/
theorem Truthful.move (h : s.Truthful base) (hs : s.Sound) (hm : Move s id t) : t.Truthful base := by
  have hk := hm.keeps
  refine ⟨(congrArg Config.strategy hk.config).trans h.always, hk.graph ▸ h.based,
    fun {i n st c} hn ht hp hst hc => ?_, fun {i n x} hn ht hp hr hx => ?_⟩
  · rw [hk.graph] at hn hp ⊢
    rcases hm.cached hst hc with ⟨st₀, hst₀, hc₀⟩ | ⟨rfl, ⟨hu, hv⟩ | ⟨hr, hv⟩⟩
    · exact h.cached hn ht hp hst₀ hc₀
    · exact (h.not_evaluated hn ht hp hu hv).elim
    · exact h.readBack hs hn ht hp hr hv
  · rw [hk.graph] at hn hp ⊢
    cases hr' : s.engine.view.relational i with
    | true =>
      obtain ⟨y, z, hy, hz, hyz⟩ := hk.exists_table hs hr'
      obtain rfl := Option.some.inj (hx.symm.trans hz)
      obtain ⟨hcolumns, hrows⟩ := Prod.mk.inj hyz
      have hsame : x.relation = y.relation := by
        rw [StoredTable.relation, StoredTable.relation, hcolumns, hrows]
      rw [hsame]
      exact h.stored hn ht hp hr' hy
    | false =>
      obtain ⟨rfl, y, hy, ⟨-, hload⟩ | ⟨⟨n', hn', hst⟩, ha, -⟩⟩ := hm.stored hr' hr
      · obtain rfl := Option.some.inj (hx.symm.trans hy)
        exact h.loaded hn ht hp hload
      · obtain rfl := Option.some.inj (hx.symm.trans hy)
        obtain rfl := Option.some.inj (hn.symm.trans hn')
        exact h.created hs hn hst ht hp ha

theorem Truthful.moves {bound : NodeId} (h : s.Truthful base) (hs : s.Sound)
    (hm : Moves bound s t) : t.Truthful base := by
  induction hm with
  | refl => exact h
  | tail hfront hm ih =>
    obtain ⟨i, -, hm⟩ := hm
    exact ih.move (Moves.sound hfront hs) hm

/-! ## Turns -/

section Turns

variable {e : Option NodeId} {y : Option Table} {base' : BaseTables} {g : Graph}

/-- What is known of a node, and counts, is as truthful in a larger graph. -/
theorem Truthful.extended (h : s.Truthful base) (hs : s.Sound) (hext : s.engine.graph.Extends g)
    (hb : ∀ i, i < s.engine.graph.size → base' i = base i) {i : NodeId} {n : Node} {st : NodeState}
    (hn : g.node? i = some n) (ht : n.op.isTable = true) (hp : g.Portable base' i)
    (hst : s.known? i = some st) :
    (∀ c, st.cached = some c → ∃ u, g.Represents base' i n u ∧ c.value = n.resultOf u) ∧
      ∀ x, s.engine.view.relational i = true → s.tableOf? i = some x →
        ∃ u, g.Represents base' i n u ∧ x.relation.Holds u n.schema := by
  have hi : i < s.engine.graph.size := hs.size ▸ (Array.getElem?_eq_some_iff.1 hst).1
  have hn₀ : s.engine.graph.node? i = some n := hext.agreesTo_of_lt hi (Nat.le_refl _) hn
  have hb : ∀ j, j ≤ i → base' j = base j := fun j hj => hb j (Nat.lt_of_le_of_lt hj hi)
  have hp₀ : s.engine.graph.Portable base i := hp.of_extends hs.graph hext hb
  refine ⟨fun c hc => ?_, fun x hr hx => ?_⟩
  · obtain ⟨u, hu, hvalue⟩ := h.cached hn₀ ht hp₀ hst hc
    exact ⟨u, hu.mono hs.graph hext hb, hvalue⟩
  · obtain ⟨u, hu, hholds⟩ := h.stored hn₀ ht hp₀ hr hx
    exact ⟨u, hu.mono hs.graph hext hb, hholds⟩

theorem Truthful.grown (h : s.Truthful base) (hs : s.Sound)
    (hg : s.engine.graph.Adds (s.engine.graph.size, g)) : (s.grown g).Truthful base := by
  have hext := hg.extends
  have hbased : g.Based base := fun i t hb => by
    obtain ⟨n, hn, hsource⟩ := h.based hb
    exact ⟨n, hext.node hn, hsource⟩
  refine ⟨h.always, hbased, fun {i n st c} hn ht hp hst hc => ?_, fun {i n x} hn ht hp hr hx => ?_⟩
  · rcases known?_grown hst with hst | rfl
    · exact (h.extended hs hext (fun _ _ => rfl) hn ht hp hst).1 c hc
    · cases hc
  · rw [relational_eq, any_known?_grown rfl] at hr
    rw [tableOf?_grown hg] at hx
    obtain ⟨st, hst⟩ := known?_of_relational hr
    exact (h.extended hs hext (fun _ _ => rfl) hn ht hp hst).2 x hr hx

theorem Truthful.supplied (h : s.Truthful base) (hs : s.AtRest) {x : Table}
    (hg : s.engine.graph.addSource x.inferSchema = .ok (s.engine.graph.size, g)) {m : Mounted}
    {z : StoredTable} (hw : s.mounted.Writes (s.engine.graph.tableName s.engine.graph.size) m)
    (ht : m.table? (s.engine.graph.tableName s.engine.graph.size) = some z)
    (hz : z.IsLoaded (x.coerce x.inferSchema) x.inferSchema) :
    (s.supplied g m x).Truthful (s.record base (some x)) := by
  have hadds := Graph.addSource_adds hg
  have hext := hadds.extends
  have hch := changesAt_supplied hs hg hw ht
  have hnew : s.record base (some x) s.engine.graph.size = some x := Function.update_self _ _ _
  have hold : ∀ i, i ≠ s.engine.graph.size → s.record base (some x) i = base i :=
    fun i hi => Function.update_of_ne hi _ _
  have hbase : ∀ i, i < s.engine.graph.size → s.record base (some x) i = base i :=
    fun i hi => hold i (Nat.ne_of_lt hi)
  have hbased : g.Based (s.record base (some x)) := by
    intro i t hb
    by_cases hi : i = s.engine.graph.size
    · subst hi
      obtain rfl := Option.some.inj (hnew.symm.trans hb)
      obtain rfl := Graph.eq_push_of_addSource hg
      exact ⟨_, Graph.node?_push.2 (.inr ⟨rfl, rfl⟩), rfl, rfl⟩
    · rw [hold i hi] at hb
      obtain ⟨n, hn, hsource⟩ := h.based hb
      exact ⟨n, hext.node hn, hsource⟩
  have hsource {n : Node} (hn : g.node? s.engine.graph.size = some n)
      (hp : g.Portable (s.record base (some x)) s.engine.graph.size) :
      g.Denotes (s.record base (some x)) s.engine.graph.size n (x.coerce n.schema) :=
    Graph.denotes_base hbased hn (hp.node hn) hnew
  refine ⟨h.always, hbased, fun {i n st c} hn htable hp hst hc => ?_,
    fun {i n z'} hn htable hp hr hz' => ?_⟩
  · rcases known?_supplied hs.sound hg hst with ⟨rfl, rfl⟩ | ⟨hi, hst⟩
    · cases hc
      exact ⟨_, (hsource hn hp).represents, Except.ok.inj ((Graph.denote_base hnew).symm.trans
        (hsource hn hp).2)⟩
    · rcases known?_grown hst with hst | rfl
      · exact (h.extended hs.sound hext hbase hn htable hp hst).1 c hc
      · cases hc
  · by_cases hi : i = s.engine.graph.size
    · subst hi
      obtain rfl : z = z' := by
        change m.table? (g.tableName _) = some z' at hz'
        rw [hext.tableName, ht, Option.some.injEq] at hz'
        exact hz'
      obtain ⟨m, hm, -, hschema⟩ := hbased hnew
      obtain rfl := Option.some.inj (hn.symm.trans hm)
      rw [← hschema] at hz
      exact ⟨_, (hsource hn hp).represents, hz.holds (hsource hn hp).1⟩
    · obtain ⟨hknown, hrel, htab⟩ := hch.elsewhere hi
      rw [hrel, relational_eq, any_known?_grown rfl] at hr
      rw [htab, tableOf?_grown hadds] at hz'
      obtain ⟨st, hst⟩ := known?_of_relational hr
      exact (h.extended hs.sound hext hbase hn htable hp hst).2 z' hr hz'

/-- **Turns keep a site truthful**, as long as the strategy stays. -/
theorem Truthful.turn (h : s.Truthful base) (hs : s.AtRest) (ht : s.Turn e y t) (ha : t.Always) :
    t.Truthful (s.record base y) := by
  cases ht with
  | computed ht => exact h.moves hs.sound ht.moves
  | built g hg ht => exact (h.grown hs.sound hg).moves (hs.sound.grown hg) ht.moves
  | supplied x g hg m z hw hz hx => exact h.supplied hs hg hw hz hx
  | @evicted id n st c hid hn hsource hst hc =>
    refine ⟨h.always, h.based, fun {i n st' c'} hn ht hp hst' hc' => ?_,
      fun {i n x} hn ht hp hr hx => ?_⟩
    · rcases of_known?_modify hst' with ⟨-, st, -, rfl⟩ | ⟨-, hst'⟩
      · cases hc'
      · exact h.cached hn ht hp hst' hc'
    · refine h.stored hn ht hp (.trans (.symm ?_) hr) hx
      exact relational_modify fun _ => rfl
  | configured => exact ⟨ha, h.based, h.cached, h.stored⟩
  | remounted m hd hv hk hg =>
    refine ⟨h.always, h.based, h.cached, fun {i n x} _ _ _ hr => ?_⟩
    rw [hs.sound.relational_remounted hg] at hr
    cases hr

theorem Truthful.elsewhere (h : s.Truthful base) {d : Disk} (hd : s.Elsewhere d) :
    Truthful { s with disk := d } base :=
  ⟨h.always, h.based, h.cached, fun hn ht hp hr hx => h.stored hn ht hp hr (hd.tableOf?_eq _ ▸ hx)⟩

end Turns

end Site

namespace Engine

open Site

theorem start_truthful {disk : Disk} {tag : String} {config : Config} {s : Site} (hd : disk.Valid)
    (h : start disk tag config = .ok s) (ha : s.Always) : s.Truthful fun _ => none := by
  obtain ⟨-, -, -, hstates, -⟩ := start_spec hd h
  have nothing {i : NodeId} {st : NodeState} (hst : s.known? i = some st) : False := by
    rw [known?, hstates] at hst
    cases hst
  refine ⟨ha, fun _ _ hb => (by cases hb), fun _ _ _ hst => (nothing hst).elim, fun _ _ _ hr => ?_⟩
  obtain ⟨st, hst⟩ := known?_of_relational hr
  exact (nothing hst).elim

/-- The strategy is this one. -/
def Follows (strategy : Strategy) (s : Site) : Prop := s.engine.config.strategy = some strategy

instance (strategy : Strategy) : DecidablePred (Follows strategy) :=
  fun _ => inferInstanceAs (Decidable (_ = _))

/-- **What is computed of a portable node has the rows of what plain recursion yields**, whether nothing is
computed in the store or all that can be, and whatever has been asked of the engine before. -/
theorem compute_portable {disk : Disk} {tag : String} {config : Config} {strategy : Strategy}
    {s₀ s t : Site} {base : BaseTables} (hd : disk.Valid) (hstart : start disk tag config = .ok s₀)
    (hne : strategy ≠ .best) (hs₀ : Follows strategy s₀)
    (hs : Run (Follows strategy) s₀ (fun _ => none) s base) {id : NodeId} {n : Node}
    (hn : s.engine.graph.node? id = some n) (ht : n.op.isTable = true)
    (hp : s.engine.graph.Portable base id) {v : Result} (hv : compute id s = .ok v t) :
    ∃ w, s.engine.graph.denote base id = .ok w ∧ w.SameRows v ∧
      (s.engine.graph.IsJoinless id → v = w) := by
  have hrest₀ := (start_spec hd hstart).1
  have hrest := hs.atRest hrest₀
  cases strategy with
  | best => exact absurd rfl hne
  | never =>
    have hfaithful : s.Faithful base := Run.faithful hs hrest₀ (start_faithful hd hstart hs₀)
    exact ⟨v, compute_of_faithful hrest hfaithful hv, .refl v, fun _ => rfl⟩
  | always =>
    have htruthful := hs.rec_turn (motive := Truthful) hrest₀ (start_truthful hd hstart hs₀)
      (fun hu ht ha h => h.turn hu ht ha) fun hd h => h.elsewhere hd
    obtain ⟨hp', st, c, hst, hc, rfl⟩ := compute_eq_ok hrest hv
    have hgraph := hp'.keeps.graph
    obtain ⟨u, ⟨x, hden, hu⟩, hvalue⟩ :=
      (htruthful.moves hrest.sound hp'.moves).cached (hgraph ▸ hn) ht (hgraph ▸ hp) hst hc
    rw [hgraph] at hden hu
    refine ⟨n.resultOf x, hden.2, hvalue ▸ hu.resultOf hden.1 (hp.node hn).distinct, fun hj => ?_⟩
    rw [hvalue, hu.eq hden.1 hj]

/-- **Strategies agree.** Two engines that have been asked for the same nodes over the same base tables,
each of them computing nothing in the store or all that it can, and whether or not they materialize
intermediate results, compute results of a portable node that have the same columns and the same rows:
those of the result that it denotes. Without joins the rows are in the same order. -/
theorem compute_agrees {disk disk' : Disk} {tag : String} {config config' : Config}
    {strategy strategy' : Strategy} {s₀ s₀' s s' t t' : Site} {base : BaseTables} (hd : disk.Valid)
    (hd' : disk'.Valid) (hstart : start disk tag config = .ok s₀)
    (hstart' : start disk' tag config' = .ok s₀') (hne : strategy ≠ .best) (hne' : strategy' ≠ .best)
    (hs₀ : Follows strategy s₀) (hs₀' : Follows strategy' s₀')
    (hs : Run (Follows strategy) s₀ (fun _ => none) s base)
    (hs' : Run (Follows strategy') s₀' (fun _ => none) s' base)
    (hgraph : s'.engine.graph = s.engine.graph) {id : NodeId} {n : Node}
    (hn : s.engine.graph.node? id = some n) (ht : n.op.isTable = true)
    (hp : s.engine.graph.Portable base id) {v v' : Result} (hv : compute id s = .ok v t)
    (hv' : compute id s' = .ok v' t') :
    v.SameRows v' ∧ (s.engine.graph.IsJoinless id → v' = v) ∧
      ∃ w, s.engine.graph.denote base id = .ok w ∧ w.SameRows v := by
  obtain ⟨w, hw, hsame, hjoinless⟩ := compute_portable hd hstart hne hs₀ hs hn ht hp hv
  obtain ⟨w', hw', hsame', hjoinless'⟩ :=
    compute_portable hd' hstart' hne' hs₀' hs' (hgraph ▸ hn) ht (hgraph ▸ hp) hv'
  rw [hgraph] at hw' hjoinless'
  obtain rfl := Except.ok.inj (hw.symm.trans hw')
  exact ⟨hsame.symm.trans hsame', fun hj => (hjoinless' hj).trans (hjoinless hj).symm, w, hw, hsame⟩

/-- A key with two partners: they come in their order in memory, and in another order from the store. -/
theorem compute_agrees_join : ∃ (s s' t t' : Site) (v v' : Result),
    Follows .never s ∧ Follows .always s' ∧ compute 2 s = .ok v t ∧ compute 2 s' = .ok v' t' ∧
      v = .table ⟨[⟨"k", [.int 1, .int 1]⟩, ⟨"w", [.int 20, .int 10]⟩]⟩ ∧
      v' = .table ⟨[⟨"k", [.int 1, .int 1]⟩, ⟨"w", [.int 10, .int 20]⟩]⟩ ∧ v.SameRows v' := by
  -- The plan of the store finds the second partner first.
  let turned : Plan := ⟨fun _ _ rows => rows.reverse, fun _ _ rows => rows.reverse_perm, fun _ => 5⟩
  let x : Table := ⟨[⟨"k", [.int 1, .int 1]⟩, ⟨"w", [.int 20, .int 10]⟩]⟩
  let y : Table := ⟨[⟨"k", [.int 1]⟩]⟩
  let both : Schema := ⟨[⟨"k", .int64, false⟩, ⟨"w", .int64, false⟩]⟩
  let keys : Schema := ⟨[⟨"k", .int64, false⟩]⟩
  let g : Graph := ((((Graph.empty "a").push .source both).2.push (.projection 0 ["k"] true) keys).2.push
    (.join 1 0 ["k"] ["k"] .inner ⟨[("k", "k")], [("w", "w")], both⟩) both).2
  let asked : List Operation :=
    [.addTable x, .build (.projection 0 ["k"] true), .build (.join 1 0 ["k"] ["k"] .inner)]
  let base : BaseTables := Function.update (fun _ => none) 0 (some x)
  obtain ⟨s₀, hstart, hs₀, hpassed, hgraph, hbase, t, hv⟩ : ∃ s₀,
      start .empty "a" (Config.standard.withStrategy .never) = .ok s₀ ∧ Follows .never s₀ ∧
        s₀.Passes (Follows .never) asked ∧ (s₀.after asked).engine.graph = g ∧
        s₀.basesAfter (fun _ => none) asked = base ∧
        ∃ t, compute 2 (s₀.after asked) = .ok (.table x) t := by
    refine ⟨_, rfl, rfl, by decide +kernel, ?_, ?_, by decide +kernel⟩
    · unfold asked g x both keys; rfl
    · unfold asked base x; funext i; rfl
  obtain ⟨s₀', hstart', hs₀', hpassed', hgraph', hbase', t', hv'⟩ : ∃ s₀,
      start (.new fun _ => turned) "a" (Config.standard.withStrategy .always) = .ok s₀ ∧
        Follows .always s₀ ∧ s₀.Passes (Follows .always) asked ∧
        (s₀.after asked).engine.graph = g ∧ s₀.basesAfter (fun _ => none) asked = base ∧
        ∃ t, compute 2 (s₀.after asked) =
          .ok (.table ⟨[⟨"k", [.int 1, .int 1]⟩, ⟨"w", [.int 10, .int 20]⟩]⟩) t := by
    refine ⟨_, rfl, rfl, by decide +kernel, ?_, ?_, by decide +kernel⟩
    · unfold turned asked g x both keys; rfl
    · unfold turned asked base x; funext i; rfl
  have hrun : Run (Follows .never) s₀ (fun _ => none) (s₀.after asked) base :=
    hbase ▸ Run.refl.after hpassed
  have hrun' : Run (Follows .always) s₀' (fun _ => none) (s₀'.after asked) base :=
    hbase' ▸ Run.refl.after hpassed'
  have hg : g.WellFormed :=
    hgraph ▸ (hrun.atRest (start_spec Disk.valid_empty hstart).1).sound.graph
  have hx : base 0 = some x := rfl
  have hden₀ : g.denote base 0 = .ok (.table x) := Graph.denote_base hx
  have hden₁ : g.denote base 1 = .ok (.table y) := by
    refine Graph.denote_of_evaluate hg rfl rfl (fun d hd _ v hv => ?_)
      (show g.evaluate (fun _ => .ok (.table x)) 1 = _ by decide +kernel)
    obtain rfl := List.mem_singleton.1 hd
    exact hden₀.trans hv
  have hden₂ : g.denote base 2 = .ok (.table x) := by
    refine Graph.denote_of_evaluate hg rfl rfl (fun d hd _ v hv => ?_)
      (show g.evaluate (fun d => .ok (.table (if d = 0 then x else y))) 2 = _ by decide +kernel)
    rcases List.mem_pair.1 hd with rfl | rfl
    · exact hden₁.trans hv
    · exact hden₀.trans hv
  have hboth : both.IsKept := ⟨by unfold Schema.Apart; decide +kernel, by decide +kernel⟩
  have hkeys : keys.IsKept := ⟨List.pairwise_singleton _ _, by decide +kernel⟩
  have hp : g.Portable base 2 := Graph.portable_of_le hg fun d n hd hn => by
    interval_cases d <;> obtain rfl := Option.some.inj hn
    · refine ⟨trivial, trivial, hboth, List.cons_ne_nil _ _, by decide +kernel, fun v hv => ?_,
        fun _ => ⟨x, hx, Table.conforms_coerce ⟨by decide, by decide⟩ fun c hc => ⟨.int64, rfl, ?_⟩⟩⟩
      · obtain rfl := Except.ok.inj (hden₀.symm.trans hv)
        decide
      · rcases List.mem_pair.1 hc with rfl | rfl <;> decide
    · refine ⟨trivial, trivial, hkeys, List.cons_ne_nil _ _, by decide +kernel, fun v hv => ?_, nofun⟩
      obtain rfl := Except.ok.inj (hden₁.symm.trans hv)
      decide
    · refine ⟨fun i j hi hj => ?_, trivial, hboth, List.cons_ne_nil _ _, by decide +kernel,
        fun v hv => ?_, nofun⟩
      · obtain rfl := Option.some.inj hi
        obtain rfl := Option.some.inj hj
        exact .cons ⟨_, _, rfl, rfl, rfl⟩ .nil
      · obtain rfl := Except.ok.inj (hden₂.symm.trans hv)
        decide
  have hagree := compute_agrees Disk.valid_empty (Disk.valid_new _) hstart hstart' (by decide)
    (by decide) hs₀ hs₀' hrun hrun' (hgraph'.trans hgraph.symm) (by rw [hgraph]; rfl) rfl (hgraph ▸ hp)
    hv hv'
  exact ⟨_, _, t, t', _, _, hrun.last hs₀, hrun'.last hs₀', hv, hv', rfl, rfl, hagree.1⟩

end Engine
end LazyQuery
