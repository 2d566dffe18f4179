import LazyQuery.Proofs.Graph.TableNames
import LazyQuery.Proofs.Graph.Topological
import LazyQuery.Proofs.Sql.Compile
import LazyQuery.Proofs.Store.RowOrder

/-!
# Limits

A limit of a table states its number of rows as it was given. In memory any number will do, as there are
never more rows than the table has. The store reads the number as a signed integer, and one that is too
large for that is none: the query is then refused, however few rows there are.

* `Sql.Select.delivery_limited` says what a limit leaves of the rows that a `SELECT` yields without it.
* `StoredTable.Offers` is what the store needs of a table to read it.
* `Graph.query_limit` is the query of a limit whose table is in the store.
* `Sql.eval?_limitSelect` and `Sql.eval?_tooLarge` are the two cases of its answer.
-/

set_option autoImplicit false

namespace LazyQuery

open Sql

namespace Sql

/-! ## Rows that are cut off -/

namespace Delivery

variable {α β : Type}

theorem take_ofRows (rows : List α) (n : Nat) : (ofRows rows).take n = ofRows (rows.take n) := by
  rw [take]
  split
  · rfl
  · rename_i h
    exact congrArg ofRows (List.take_of_length_le (Nat.le_of_not_le h)).symm

theorem take_map (d : Delivery α) (n : Nat) (make : α → β) :
    (d.map make).take n = (d.take n).map make := by
  rw [take, take]
  simp only [map, List.length_map]
  split
  · rw [← List.map_take]
    rfl
  · rfl

end Delivery

/-- A limit takes rows off the end. One that is no integer leaves nothing that can be read. -/
theorem Select.delivery_limited {s : Select} (h : s.limit? = none) (k : Nat) (scope : Scope)
    (asked : Bool) (input : Delivery (List Datum)) :
    ({ s with limit? := some k } : Select).delivery scope asked input =
      if k ≤ largestLimit then (s.delivery scope asked input).take k else .broken := by
  have hcut {α : Type} (rows : Delivery α) : s.cutOff rows = rows := by rw [cutOff, h]
  rw [delivery, delivery, hcut, Delivery.take_map]
  change Delivery.map (if k ≤ largestLimit then Delivery.take _ k else .broken) _ = _
  split <;> rfl

/-- A limit that is no integer breaks off a query, whatever it reads. -/
theorem Select.breaksOff_of_limit {s : Select} {k : Nat} (hs : s.limit? = some k)
    (hk : largestLimit < k) {catalog : Catalog} {asked : Bool} {r : Relation}
    (hr : s.eval? catalog asked = some r) : r.breaksOff = true := by
  rw [eval?] at hr
  obtain ⟨⟨scope, input⟩, -, hr⟩ := Option.bind_eq_some_iff.1 hr
  dsimp only at hr
  split at hr
  · cases hr
  · cases hr
    change (Select.delivery s scope asked input).breaksOff = true
    rw [delivery, cutOff, hs]
    dsimp only
    rw [if_neg (Nat.not_le.2 hk)]
    rfl

/-- An answer is what the body of a query yields over some relations, and all its rows can be had. -/
theorem Query.exists_evalCompound?_of_eval? {q : Query} {catalog : Catalog} {r : Relation}
    (h : q.eval? catalog = some r) :
    ∃ reach, evalCompound? reach true q.body = some r ∧ r.breaksOff = false := by
  rw [Query.eval?] at h
  simp only [Option.bind_eq_bind, Option.bind_eq_some_iff] at h
  obtain ⟨headings, -, layout, -, h⟩ := h
  rcases (Option.orElse_eq_some _ _ _).1 h with h | ⟨-, h⟩
  · split at h
    · cases h
    · obtain ⟨reach, -, h⟩ := Option.bind_eq_some_iff.1 h
      obtain ⟨p, hp, h⟩ := Option.bind_eq_some_iff.1 h
      dsimp only at h
      split at h
      · cases h
      · rename_i hoff
        obtain rfl := Option.some.inj h
        rw [Bool.or_eq_true, not_or, Bool.not_eq_true] at hoff
        exact ⟨reach, hp, hoff.1⟩
  · obtain ⟨reach, -, h⟩ := Option.bind_eq_some_iff.1 h
    obtain ⟨p, hp, h⟩ := Option.bind_eq_some_iff.1 h
    split at h
    · cases h
    · rename_i hoff
      obtain rfl := Option.some.inj h
      exact ⟨_, hp, Bool.eq_false_iff.2 hoff⟩

/-- **A query with a limit that is no integer has no answer**, by whatever layout it is computed. -/
theorem Query.eval?_tooLarge {q : Query} {s : Select} (hq : q.body = [s]) {k : Nat} (hs : s.limit? = some k)
    (hk : largestLimit < k) (catalog : Catalog) : q.eval? catalog = none := by
  rw [Option.eq_none_iff_forall_ne_some]
  intro r hr
  obtain ⟨reach, hr, hoff⟩ := q.exists_evalCompound?_of_eval? hr
  rw [hq] at hr
  obtain ⟨s', rest, p, parts, hlist, hp, hparts, -, hdelivery⟩ := evalCompound?_eq_some hr
  cases hlist
  cases hparts
  have hbroken : r.breaksOff = true := by
    rw [hdelivery]
    exact Select.breaksOff_of_limit hs hk hp
  exact absurd (hoff.symm.trans hbroken) Bool.false_ne_true

/-! ## Tables that are offered -/

end Sql

/-- The table is there under the columns, and they can be read: there are some and not too many, the store
tells them apart, and nothing of their names is cut off. -/
structure StoredTable.Offers (x : StoredTable) (columns : List String) : Prop where
  legible : x.IsLegible
  names : x.columns.map (·.1) = columns
  nonempty : columns ≠ []
  room : columns.length ≤ columnRoom
  whole : Database.cutsOff columns = false

/-- Tables that were loaded are there under the columns of their schema. -/
theorem StoredTable.IsLoaded.offers {x : StoredTable} {t : Table} {s : Schema} (h : x.IsLoaded t s)
    (hs : s.IsCreatable) : x.Offers s.names where
  legible := h.isLegible hs.apart
  names := h.names
  nonempty he := hs.nonempty (List.map_eq_nil_iff.1 he)
  room := by simpa [Schema.names] using hs.room
  whole := hs.whole

namespace Sql

variable {catalog : Catalog} {name : String} {columns : List String} {x : StoredTable} {k : Nat}

/-- The first rows of a table, one `SELECT`. -/
def limitSelect (name : String) (columns : List String) (k : Nat) : Select :=
  { Select.ofInput (Graph.columnItems name columns) (.table name) with limit? := some k }

theorem limitSelect_isScan (name : String) (columns : List String) (k : Nat) :
    (limitSelect name columns k).IsScan name := ⟨rfl, rfl, rfl, rfl⟩

theorem hasLongPattern_limitSelect (name : String) (columns : List String) (k : Nat) :
    (limitSelect name columns k).exprs.any Expr.hasLongPattern = false := by
  simp [limitSelect, Graph.columnItems, Select.ofInput, Select.exprs, Expr.hasLongPattern]

/-- **The query of a limit is accepted**, whatever its number. -/
theorem isAccepted_limitSelect (h : x.Offers columns) (hname : Database.cutsOff [name] = false) (k : Nat)
    {below : Nat} (hbelow : below ≤ Query.belowCreateTable) :
    Query.isAccepted ⟨[], [limitSelect name columns k]⟩ below = true := by
  have scan := limitSelect_isScan name columns k
  refine scan.isAccepted (scan.zero_notMem_render hname (List.forall_mem_map.2 fun c hc => ?_) nofun)
    (List.forall_mem_map.2 fun c _ => ?_)
    (by simpa [limitSelect, Graph.columnItems, Select.ofInput] using h.nonempty)
    (by simpa [limitSelect, Graph.columnItems, Select.ofInput] using h.room) (Nat.zero_le _) hbelow
  · change '\x00' ∉ (ident name ++ "." ++ ident c).toList
    rw [String.toList_append, String.toList_append, List.mem_append, List.mem_append, not_or, not_or]
    exact ⟨⟨zero_notMem_of_cutsOff hname (List.mem_singleton_self name), by decide⟩,
      zero_notMem_of_cutsOff h.whole hc⟩
  · exact (by decide : 3 ≤ 4)

section

variable (name)

/-- All columns of a table, without a limit. -/
theorem isPlain_columns (hx : x.Offers columns) :
    (Select.ofInput (Graph.columnItems name columns) (.table name)).IsPlain
      (Scope.ofNumbered name x.relation) := by
  refine ⟨rfl, rfl, fun i hi => ?_, nofun, nofun⟩
  obtain ⟨c, hc, rfl⟩ := List.mem_map.1 hi
  rw [← hx.names] at hc
  obtain ⟨p, hp, rfl⟩ := List.mem_map.1 hc
  obtain ⟨j, hj, rfl⟩ := List.getElem_of_mem hp
  refine ⟨rfl, ?_, ?_⟩
  · rw [Expr.wellScoped, index?_column hx.legible hj]
    rfl
  · rw [Expr.isRefused, Option.any_eq_false]
    exact fun j _ => by simp [isRefusedAt_ofNumbered]

/-- The columns of a table show its rows as they are. -/
theorem plainRows_columns (hx : x.Offers columns) :
    (Select.ofInput (Graph.columnItems name columns) (.table name)).plainRows
      (Scope.ofNumbered name x.relation)
      ((List.range x.rows.length).map fun i => numberedRow (x.rows.getD i []) i) = x.rows := by
  rw [Select.plainRows_eq_map rfl rfl rfl, List.map_map]
  refine List.ext_getElem (by simp) fun i hi hi' => ?_
  have hrow : x.rows[i].length = x.columns.length := hx.legible.width _ (List.getElem_mem hi')
  rw [List.getElem_map, List.getElem_range, Function.comp, List.getD_eq_getElem _ _ hi', ← hx.names]
  change (((x.columns.map (·.1)).map fun c => Item.mk (.column name c) none).map fun it => _) = _
  rw [List.map_map, List.map_map]
  refine List.ext_getElem (by simp [hrow]) fun j hj hj' => ?_
  rw [List.getElem_map, Function.comp, Function.comp, Expr.eval, index?_column hx.legible (hrow ▸ hj')]
  simp [numberedRow, List.getElem?_append_left hj', List.getElem?_eq_getElem hj']

theorem resultNames_columns (hx : x.Offers columns) :
    (Graph.columnItems name columns).map (·.resultName (Scope.ofNumbered name x.relation)) = columns := by
  rw [← hx.names, Graph.columnItems, List.map_map, List.map_map]
  refine List.map_congr_left fun c hc => ?_
  obtain ⟨j, hj, rfl⟩ := List.getElem_of_mem hc
  have hb : (Scope.ofNumbered name x.relation)[j]? =
      some ⟨name, ⟨x.columns[j].1, x.columns[j].2, false⟩, false⟩ := by
    rw [bindings_columns, List.getElem?_append_left (by simpa using hj)]
    simp [hj]
  simp only [Function.comp, Item.resultName, index?_column hx.legible hj, Option.bind_some, hb]

end

/-- **A limit that is an integer** is answered with the first rows of the table. -/
theorem eval?_limitSelect (hc : catalog name = some x.relation) (hx : x.Offers columns)
    (hk : k ≤ largestLimit) : ∃ r, Query.eval? catalog ⟨[], [limitSelect name columns k]⟩ = some r ∧
      r.names = columns ∧ r.rows = x.rows.take k := by
  have plain := isPlain_columns name hx
  have hin : (limitSelect name columns k).reads? (catalog.only [name]) =
      some (Scope.ofNumbered name x.relation,
        .ofRows ((List.range x.rows.length).map fun i => numberedRow (x.rows.getD i []) i)) := by
    rw [← numberedRows_eq]
    exact Select.reads?_table rfl (by simp [Catalog.only, hc])
  obtain ⟨p, hp, hcolumns, hdelivery, -⟩ := Select.eval?_isSome true hin plain.wellFormed
  rw [limitSelect, Select.delivery_limited rfl, if_pos hk, plain.delivery, plainRows_columns name hx,
    Delivery.take_ofRows] at hdelivery
  obtain ⟨q, hq, hnames, hqp⟩ := (limitSelect_isScan name columns k).eval?_of_written
    (hasLongPattern_limitSelect name columns k) hp (by rw [hdelivery]; rfl)
  refine ⟨q, hq, ?_, ?_⟩
  · rw [hnames, Relation.names, hcolumns, List.map_map]
    exact resultNames_columns name hx
  · exact congrArg Delivery.rows (hqp.trans hdelivery)

end Sql

/-! ## Queries of limits -/

namespace StoredTable

variable {x : StoredTable} {columns : List String} {r : Relation} {k : Nat}

theorem Offers.columns_ne (h : x.Offers columns) : x.columns ≠ [] := fun he =>
  h.nonempty (by rw [← h.names, he, List.map_nil])

/-- The first rows of a table, as a table of cells. -/
theorem Offers.toTable_limit (h : x.Offers columns) (hnames : r.names = columns)
    (hrows : r.rows = x.rows.take k) : (⟨r.toColumns⟩ : Table) = x.toTable.limit k := by
  have hfirst : (List.range (min k x.rows.length)).map (x.rows.getD · []) = x.rows.take k :=
    List.ext_getElem (by simp) fun i hi hi' => by
      rw [List.length_take] at hi'
      simp [Nat.lt_of_lt_of_le hi' (Nat.min_le_right _ _)]
  rw [Table.limit, rowCount_toTable h.columns_ne, take_toTable, hfirst, Relation.toColumns_names, hnames,
    hrows, ← h.names]
  exact congrArg Table.mk (List.ext_getElem (by simp) fun j hj hj' => by simp)

end StoredTable

namespace Graph

variable {g : Graph} {id source : NodeId} {n d : Node} {k : Nat} {v : View}

/-- Where the table of a limit is in the store, nothing has to be computed before the limit. -/
theorem dependencyOrder_limit (hg : g.WellFormed) (hn : g.node? id = some n) (hop : n.op = .limit source k)
    (hv : v.relational source = true) : g.dependencyOrder id .relational v = .ok [] := by
  obtain ⟨order, horder, ho⟩ := dependencyOrder_spec hg hn .relational v
  have hrequired {c : NodeId} (h : g.Required .relational v id c) : c = source := by
    induction h with
    | input hn' hc =>
      obtain rfl := Option.some.inj (hn.symm.trans hn')
      rw [Node.deps, hop] at hc
      exact List.mem_singleton.1 hc
    | step _ hm _ _ _ ih =>
      subst ih
      exact absurd (hm.symm.trans hv) Bool.false_ne_true
  have hnone : order = [] := by
    refine List.eq_nil_iff_forall_not_mem.2 fun c hc => ?_
    obtain ⟨h, hm⟩ := (ho.mem_iff c).1 hc
    obtain rfl := hrequired h
    exact absurd (hm.symm.trans hv) Bool.false_ne_true
  rw [horder, hnone]

/-- A limit whose table is in the store is computed by one `SELECT` that names no results. -/
theorem query_limit (hg : g.WellFormed) (hn : g.node? id = some n) (hop : n.op = .limit source k)
    (hd : g.node? source = some d) (hv : v.relational source = true) :
    g.query id v = .ok ⟨[], [limitSelect d.name d.columns k]⟩ := by
  rw [query, dependencyOrder_limit hg hn hop hv, ok_bind, compound, node_eq_ok.2 hn, ok_bind, hop]
  dsimp only
  rw [node_eq_ok.2 hd]
  rfl

/-- The text of the query of a limit ends in the number of rows as it was given. -/
theorem render_limitSelect (name : String) (columns : List String) (k : Nat) :
    ∃ text, Query.render ⟨[], [limitSelect name columns k]⟩ = text ++ (" LIMIT " ++ toString k) := by
  rw [Query.render]
  change ∃ text, " UNION ALL ".intercalate [(limitSelect name columns k).render] = _
  rw [String.intercalate_singleton, Select.render]
  exact ⟨_, rfl⟩

end Graph

namespace Database

variable {db : Database} {g : Graph} {source : NodeId} {d : Node} {v : View} {x : StoredTable}

/-- **A limit means the same in the store as in memory, unless its number is too large for the store.**
A limit of a table can be built with any number of rows. Where the table is in the store, the limit is a
`SELECT` that states the number as it was given. It is answered, and its result can be made a table, just if
the number is an integer of the store; the answer is then the first rows of the table, as many of them as
the limit leaves in memory. -/
theorem limit_answered_iff (hg : g.Constructed) (hd : g.table source = .ok d)
    (hv : v.relational source = true) (hx : db.table? d.name = some x) (hoffers : x.Offers d.columns)
    (hname : cutsOff [d.name] = false) (k : Nat) :
    ∃ r q text, g.addLimit source k = .ok r ∧ r.2.query r.1 v = .ok q ∧
      q.render = text ++ (" LIMIT " ++ toString k) ∧
      ((∃ answer, db.query? q = some answer) ↔ k < 2 ^ 63) ∧
      (∀ name, db.isFree name = true → ((∃ db', db.createTableAs? name q = some db') ↔ k < 2 ^ 63)) ∧
      ∀ answer, db.query? q = some answer →
        answer.rows = x.rows.take k ∧ (⟨answer.toColumns⟩ : Table) = x.toTable.limit k := by
  have hk : k < 2 ^ 63 ↔ k ≤ largestLimit := by
    rw [largestLimit]
    omega
  have hadd : g.addLimit source k = .ok (g.push (.limit source k) d.schema) := by
    rw [Graph.addLimit, hd]
    rfl
  have hwell := (Graph.addLimit_adds hadd).wellFormed hg.wellFormed
  have hnode : (g.push (.limit source k) d.schema).2.node? g.size = some _ :=
    Graph.node?_push.2 (.inr ⟨rfl, rfl⟩)
  have hd' := (Graph.table_eq_ok hd).1
  have hquery := Graph.query_limit hwell hnode rfl (Graph.node?_push.2 (.inl hd')) hv
  obtain ⟨text, htext⟩ := Graph.render_limitSelect d.name d.columns k
  have hlisting : isListingName d.name = false := by
    rw [Graph.name_of_node? hg.wellFormed hd']
    exact g.isListingName_tableName source
  have haccepted {below : Nat} (h : below ≤ Query.belowCreateTable) :=
    isAccepted_limitSelect hoffers hname k h
  have htooLarge (hlarge : ¬ k < 2 ^ 63) (catalog : Catalog) :
      Query.eval? catalog ⟨[], [limitSelect d.name d.columns k]⟩ = none :=
    Query.eval?_tooLarge rfl rfl (Nat.not_le.1 fun h => hlarge (hk.2 h)) catalog
  have hcatalog (listing : Relation) : db.relationWith? listing d.name = some x.relation :=
    relationWith?_of_table? _ hlisting hx
  have hfirst (h : k < 2 ^ 63) (listing : Relation) :=
    @eval?_limitSelect (db.catalogWith listing ⟨[], [limitSelect d.name d.columns k]⟩) _ _ _ _
      (hcatalog listing) hoffers (hk.1 h)
  refine ⟨_, _, text, hadd, hquery, htext, ?_, fun name hfree => ?_, fun answer h => ?_⟩
  · rw [query?, haccepted (Nat.zero_le _), if_pos rfl]
    constructor
    · rintro ⟨answer, h⟩
      by_contra hlarge
      rw [htooLarge hlarge] at h
      cases h
    · intro h
      obtain ⟨answer, h, -⟩ := hfirst h db.listing
      exact ⟨answer, h⟩
  · constructor
    · rintro ⟨db', h⟩
      by_contra hlarge
      obtain ⟨-, -, t, -, hresult⟩ := table?_createTableAs? h
      rw [resultOf?, htooLarge hlarge] at hresult
      cases hresult
    · intro h
      obtain ⟨answer, h, -⟩ := hfirst h db.listingWithPending
      exact createTableAs?_isSome (haccepted (Nat.le_refl _)) hfree (by rw [resultOf?, h]; rfl)
  · rw [query?, haccepted (Nat.zero_le _), if_pos rfl] at h
    have hsmall : k < 2 ^ 63 := by
      by_contra hlarge
      rw [htooLarge hlarge] at h
      cases h
    obtain ⟨r, hr, hnames, hrows⟩ := hfirst hsmall db.listing
    obtain rfl := Option.some.inj (hr.symm.trans h)
    exact ⟨hrows, hoffers.toTable_limit hnames hrows⟩

/-- A base table as it is stored. -/
def storedKeys : StoredTable :=
  ⟨"ts_0", [("k", .integer)], [[.integer 5], [.integer 7], [.integer 9]], default⟩

/-- Of three rows two can be asked for, but not so many that a signed integer cannot tell. In memory these
are all rows. -/
theorem limit_answered_iff_tooLarge :
    let db : Database := { empty with tables := [storedKeys] }
    (∃ r q answer, Graph.sharedLimits.addLimit 0 2 = .ok r ∧
      r.2.query r.1 Graph.secondInMemory = .ok q ∧ db.query? q = some answer ∧
      answer.rows = [[.integer 5], [.integer 7]]) ∧
    ∃ r q, Graph.sharedLimits.addLimit 0 (2 ^ 63) = .ok r ∧
      r.2.query r.1 Graph.secondInMemory = .ok q ∧ db.query? q = none ∧
      storedKeys.toTable.limit (2 ^ 63) = storedKeys.toTable := by
  intro db
  have offers : storedKeys.Offers ["k"] :=
    ⟨⟨by decide, by decide⟩, rfl, by decide, by decide, by decide⟩
  have limits := limit_answered_iff Graph.constructed_sharedLimits
    (rfl : Graph.sharedLimits.table 0 = .ok _) (rfl : Graph.secondInMemory.relational 0 = true)
    (rfl : db.table? _ = some storedKeys) offers (by decide)
  constructor
  · obtain ⟨r, q, text, hadd, hquery, -, hiff, -, hrows⟩ := limits 2
    obtain ⟨answer, h⟩ := hiff.2 (by decide)
    exact ⟨r, q, answer, hadd, hquery, h, (hrows answer h).1⟩
  · obtain ⟨r, q, text, hadd, hquery, -, hiff, -, -⟩ := limits (2 ^ 63)
    refine ⟨r, q, hadd, hquery, Option.eq_none_iff_forall_ne_some.2 fun answer h => ?_, ?_⟩
    · exact absurd (hiff.1 ⟨answer, h⟩) (by decide)
    · rfl

end Database
end LazyQuery
