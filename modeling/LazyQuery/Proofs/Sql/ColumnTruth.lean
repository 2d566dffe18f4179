import LazyQuery.Proofs.Engine.Alignment
import LazyQuery.Proofs.Sql.Aggregate
import LazyQuery.Proofs.Sql.ExclusiveOr
import LazyQuery.Proofs.Sql.JoinKeys
import LazyQuery.Proofs.Sql.Truth
import LazyQuery.Proofs.Store.Regular

/-!
# Columns as conditions, in memory and in queries

Rows can be selected by a column, and any column can be asked whether something or everything in it is
true. `Graph.truths_agree_iff` says when a table in memory and a query of the loaded table agree about
that. They do for columns of numbers and truth values. Columns of texts and blobs are read by rules of
their own in each place (see `LazyQuery.Proofs.Sql.Truth`).

* `Graph.InMemory.evaluate_selection` is the selection in memory. A column that is chosen without its
  repetitions is as good as the column itself if there are none, and is refused otherwise.
* `Graph.eval?_columnSelect` is the query of the selection. Its rows come from a table whose columns are
  declared (`declares_ofNumbered`, `rowKeeps_numberedRow`).
-/

set_option autoImplicit false

namespace LazyQuery

open Sql

/-! ## The column in memory -/

namespace Table

variable {t u : Table} {c : Column}

/-- Of a column in which nothing is repeated, nothing is left out. -/
theorem dropDuplicates_of_nodup (h : c.keys.Nodup) : (Table.mk [c]).dropDuplicates = .ok ⟨[c]⟩ := by
  have hvalues : c.values = (List.range c.values.length).map fun i => c.values.getD i .null :=
    List.ext_getElem (by simp) fun i hi _ => by simp [List.getElem?_eq_getElem hi]
  have hkeys : c.keys =
      (List.range c.values.length).map fun i => Scalar.keyOf [c.values.getD i .null] := by
    rw [Column.keys]
    conv_lhs => rw [hvalues, List.map_map]
    rfl
  have hall : firstPositions [] 0 c.keys = List.range c.values.length := by
    rw [hkeys, firstPositions_eq_filter, List.filter_eq_self]
    intro i hi
    rw [decide_eq_true_iff]
    intro j hj hsame
    rw [hkeys] at h
    have hi := List.mem_range.1 hi
    have hinj := List.inj_on_of_nodup_map h (List.mem_range.2 (Nat.lt_trans hj hi))
      (List.mem_range.2 hi) hsame
    omega
  have hdigests : (Table.mk [c]).rowDigests (Table.mk [c]).names = .ok c.keys := rowDigests_singleton
  rw [dropDuplicates, hdigests]
  change Except.ok ((Table.mk [c]).take _) = _
  rw [hall]
  exact congrArg (fun values => Except.ok (Table.mk [⟨c.name, values⟩])) hvalues.symm

end Table

namespace Graph

variable {g : Graph} {fetch : Fetch} {d id criterion : NodeId} {k n : Node} {t : Table} {w : Result}
  {name : String} {distinct : Bool}

/-- A column that selects rows in memory is the one of the table, unless it is shorter. -/
theorem InMemory.mask (h : g.InMemory fetch) (hk : g.node? id = some k)
    (hop : k.op = .projection d [name] distinct) (ht : g.inputTable fetch d = .ok t) (hl : t.Level)
    (hw : fetch id = .ok w) (hs : ¬k.op.Shortens t) :
    g.operandValues fetch t.rowCount id = .ok ((List.range t.rowCount).map (t.cell name)) := by
  obtain ⟨i, label, _, schema⟩ := k
  subst hop
  obtain ⟨t', selected, u, ht', hselect, hu, rfl⟩ := evaluates_of_evaluate hk (h hk rfl hw)
  obtain rfl := Except.ok.inj (ht.symm.trans ht')
  obtain ⟨c, hcolumn, rfl⟩ := Table.select_singleton hselect
  have hlen : c.values.length = t.rowCount := hl c (List.mem_of_find?_eq_some hcolumn)
  obtain rfl : u = ⟨[c]⟩ := by
    cases distinct with
    | false => exact hu
    | true =>
      have hnodup : c.keys.Nodup := not_not.1 fun hrep => hs ⟨c, hcolumn, hrep⟩
      exact Except.ok.inj (hu.symm.trans (Table.dropDuplicates_of_nodup hnodup))
  have hinput : g.inputTable fetch id = .ok ⟨[c]⟩ := inputTable_eq_ok.2 ⟨_, _, hk, hw, rfl⟩
  rw [Graph.operandValues, liftNode_eq_ok.2 hk, ok_bind]
  dsimp only
  rw [hinput, ok_bind]
  dsimp only
  rw [if_pos hlen, Table.values_eq hcolumn hlen, pure_eq_ok]

/-- A selection by a column keeps the rows in which the column is true, or refuses the column. -/
theorem InMemory.evaluate_selection (h : g.InMemory fetch) (hn : g.node? id = some n)
    (hop : n.op = .selection d criterion) (hk : g.node? criterion = some k)
    (hproj : k.op = .projection d [name] distinct) (ht : g.inputTable fetch d = .ok t) (hl : t.Level)
    (hw : fetch criterion = .ok w) : (Mismatched (g.evaluate fetch id) ↔ k.op.Shortens t) ∧
      (¬k.op.Shortens t → g.evaluate fetch id =
        .ok (.table (t.take ((List.range t.rowCount).filter fun i => (t.cell name i).isTrue)))) := by
  constructor
  · have hoperand : k.op.IsOperandOf d := by rw [hproj]; rfl
    obtain ⟨hfills, hiff⟩ := h.operandValues hk hoperand ht hl hw
    have hsources : n.op.evalSources = [criterion] := by rw [hop]; rfl
    rw [evaluate_mismatched_iff hn (by rw [hop]; rfl) ht (by simpa [hsources] using hfills), hsources]
    simpa using hiff
  · intro hs
    have hkept : ((List.range t.rowCount).filter fun i =>
        (((List.range t.rowCount).map (t.cell name)).getD i .null).truth? == some true) =
          (List.range t.rowCount).filter fun i => (t.cell name i).isTrue := by
      refine List.filter_congr fun i hi => ?_
      rw [List.mem_range] at hi
      simp [Scalar.isTrue, hi]
    rw [evaluate, liftNode_eq_ok.2 hn, ok_bind]
    dsimp only
    rw [hop]
    dsimp only
    rw [ht, ok_bind, h.mask hk hproj ht hl hw hs, ok_bind, Table.filter_ok _ (by simp), hkept]
    rfl

end Graph

/-! ## The table of a query -/

namespace Sql

variable {x : StoredTable} {t : Table} {s : Schema} {table name : String} {i : Nat} {f : Field}

/-- What a query of one loaded table has in scope. -/
theorem declares_ofNumbered (h : x.IsLoaded t s) (hs : s.Apart) (table : String) :
    (Scope.ofNumbered table x.relation).Declares table s 0 :=
  declares_append h hs table [] _ nofun

/-- The rows of a loaded table, each with its number. -/
theorem numberedRows_loaded (h : x.IsLoaded t s) : x.relation.numberedRows =
    .ofRows ((List.range t.rowCount).map fun i => numberedRow (x.rows.getD i []) i) := by
  rw [numberedRows_eq, h.rows_length]

theorem rowKeeps_numberedRow (h : x.IsLoaded t s) (hnames : t.names = s.names) (hn : s.names.Nodup)
    (hi : i < t.rowCount) : RowKeeps (numberedRow (x.rows.getD i []) i) s 0 (t.cell · i) :=
  rowKeeps_append h hnames hn hi [] _

end Sql

namespace Graph

variable {g : Graph} {fetch : Fetch} {d id criterion : NodeId} {k m n : Node} {t : Table}
  {name : String} {distinct : Bool} {catalog : Catalog} {x : StoredTable}

/-- The query of a selection by a column. -/
def columnSelect (m : Node) (name : String) : Select :=
  { Select.ofInput (allItems m) (.table m.name) with condition? := some (.column m.name name) }

theorem compound_columnSelect (hn : g.node? id = some n) (hop : n.op = .selection d criterion)
    (hm : g.node? d = some m) (hk : g.node? criterion = some k)
    (hproj : k.op = .projection d [name] distinct) : g.compound id = .ok [columnSelect m name] := by
  have hexpr : g.expression criterion = .ok (.column m.name name) := by
    rw [expression, expressionWithin, node_eq_ok.2 hk, ok_bind]
    dsimp only
    rw [hproj]
    dsimp only
    rw [node_eq_ok.2 hm]
    rfl
  rw [compound, node_eq_ok.2 hn, ok_bind]
  dsimp only
  rw [hop]
  dsimp only
  rw [node_eq_ok.2 hm, hexpr]
  rfl

/-- The query of a selection by a column keeps the rows where what is kept of the column's cell is true. -/
theorem eval?_columnSelect (hx : x.IsLoaded t m.schema) (ht : t.names = m.schema.names)
    (ha : m.schema.Apart) (hc : catalog m.name = some x.relation) {f : Field}
    (hf : m.schema.field? name = some f) (asked : Bool) :
    ∃ r, (columnSelect m name).eval? catalog asked = some r ∧
      r.rows = ((List.range t.rowCount).filter fun i =>
        (kept f.type (t.cell name i)).truth? == some true).map (x.rows.getD · []) := by
  have hscope := declares_ofNumbered hx ha m.name
  have hrow {i : Nat} (hi : i < t.rowCount) := rowKeeps_numberedRow hx ht ha.nodup hi
  have column {c : String} (hc : c ∈ m.schema.names) : (Expr.column m.name c).isAggregate = false ∧
      (Expr.column m.name c).wellScoped (Scope.ofNumbered m.name x.relation) = true ∧
        (Expr.column m.name c).isRefused (Scope.ofNumbered m.name x.relation) = false := by
    refine ⟨rfl, hscope.found hc, ?_⟩
    rw [Expr.isRefused, Option.any_eq_false]
    exact fun j _ => by simp [isRefusedAt_ofNumbered]
  have hname : name ∈ m.schema.names :=
    Schema.field?_name hf ▸ List.mem_map_of_mem (Schema.mem_of_field? hf)
  have hplain : (columnSelect m name).IsPlain (Scope.ofNumbered m.name x.relation) := by
    refine ⟨rfl, rfl, fun i hi => ?_, fun c hc => ?_, fun k hk => (by cases hk)⟩
    · obtain ⟨c, hc, rfl⟩ := List.mem_map.1 hi
      exact column hc
    · obtain rfl := Option.some.inj hc
      exact (column hname).2
  obtain ⟨r, hr, -, hdelivery, -⟩ :=
    Select.eval?_isSome asked (Select.reads?_table rfl hc) hplain.wellFormed
  refine ⟨r, hr, ?_⟩
  rw [hdelivery, numberedRows_loaded hx, hplain.delivery, Delivery.rows_ofRows,
    Select.plainRows_where rfl rfl rfl fun i hi => by rw [Expr.holds, hscope.eval (hrow hi) hf]]
  refine List.map_congr_left fun i hi => ?_
  have hi := List.mem_range.1 (List.mem_filter.1 hi).1
  refine Eq.trans ?_ (hx.row ht ha.nodup hi).symm
  change ((m.schema.fields.map Field.name).map fun c => Item.mk (.column m.name c) none).map _ = _
  rw [List.map_map, List.map_map]
  exact List.map_congr_left fun f hf =>
    hscope.eval (hrow hi) (Schema.field?_of_mem ha.nodup hf)

/-- The query of an aggregation reads the rows of the table, and asks for the aggregate of each column. -/
theorem compound_aggregator {source : NodeId} {func : AggFunc} {keys columns : List String}
    (hn : g.node? id = some n) (hop : n.op = .aggregator source func d keys columns)
    (hm : g.node? d = some m) : g.compound id = .ok [aggregateSelect m func keys columns] := by
  rw [compound, node_eq_ok.2 hn, ok_bind]
  dsimp only
  rw [hop]
  dsimp only
  rw [node_eq_ok.2 hm]
  rfl

/-- **A column is true in memory where it is in a query, but for texts and blobs.** The table is computed in
memory, and loaded into columns that its schema declares. A selection by a column refuses it in memory just
if it is chosen without its repetitions and there are some. Otherwise the selection and its query have a
result, and of each row they agree just if its cell is not misread. The query of an aggregation by `any` or
`all` reads the rows of the table. For each column and all groups of rows there is a truth value in memory
and one in the query, which are the same just if the cells of the group are not in dispute. -/
theorem truths_agree_iff (hg : g.Constructed) (h : g.InMemory fetch) (hm : g.node? d = some m)
    (ht : g.inputTable fetch d = .ok t) (hl : t.Level) (ho : t.Obeys .defined m.schema)
    (ha : m.schema.Apart) (hx : x.IsLoaded t m.schema) (hc : catalog m.name = some x.relation)
    (asked : Bool) :
    (∀ {id criterion n k name distinct w}, g.node? id = some n → n.op = .selection d criterion →
      g.node? criterion = some k → k.op = .projection d [name] distinct → fetch criterion = .ok w →
      (Mismatched (g.evaluate fetch id) ↔ k.op.Shortens t) ∧
      ∃ (sel : Select) (r : Relation) (isKept isSelected : Nat → Bool),
        (¬k.op.Shortens t →
          g.evaluate fetch id = .ok (.table (t.take ((List.range t.rowCount).filter isKept)))) ∧
        g.compound id = .ok [sel] ∧ sel.eval? catalog asked = some r ∧
        r.rows = ((List.range t.rowCount).filter isSelected).map (x.rows.getD · []) ∧
        ∀ i < t.rowCount, isKept i = isSelected i ↔ ¬(t.cell name i).IsMisread) ∧
    ∀ {id source n func keys columns}, g.node? id = some n →
      n.op = .aggregator source func d keys columns → func = .any ∨ func = .all →
      ∃ sel scope rowAt, g.compound id = .ok [sel] ∧
        sel.reads? catalog = some (scope, .ofRows ((List.range t.rowCount).map rowAt)) ∧
        ∀ c ∈ columns, ⟨.aggregate func (.column m.name c), some c⟩ ∈ sel.items ∧
          ∀ group ⊆ List.range t.rowCount, ∃ v value, aggregate func (group.map (t.cell c)) = .ok v ∧
            (Expr.aggregate func (.column m.name c)).evalGroup? scope (group.map rowAt) = some value ∧
            (value.toScalar.coerce .boolean = v ↔ ¬func.Disputes (group.map (t.cell c))) := by
  have hwell := hg.wellFormed
  have cell {name : String} {f : Field} (hf : m.schema.field? name = some f) (i : Nat) :
      CellLaw.defined f.type f.nullable (t.cell name i) := ho.cell (fun _ _ => .inl rfl) hf i
  constructor
  · intro id criterion n k name distinct w hn hop hk hproj hw
    have hs := hwell.hasSchema hk
    rw [hproj] at hs
    obtain ⟨-, -, _, hschema, hproject⟩ := hs
    obtain rfl := schema_eq hschema hm
    obtain ⟨f, hf⟩ :=
      Schema.field?_isSome (Schema.mem_names_of_project hproject name (List.mem_singleton_self name))
    obtain ⟨hmis, hok⟩ := h.evaluate_selection hn hop hk hproj ht hl hw
    obtain ⟨r, hr, hrows⟩ := eval?_columnSelect hx ho.names ha hc hf asked
    exact ⟨hmis, _, r, _, _, hok, compound_columnSelect hn hop hm hk hproj, hr, hrows,
      fun i _ => isTrue_eq_truth?_iff (cell hf i)⟩
  · intro id source n func keys columns hn hop hfunc
    have hs := hwell.hasSchema hn
    rw [hop] at hs
    obtain ⟨-, _, keyFields, fields, hschema, hkeys, hfields, -⟩ := hs
    obtain rfl := schema_eq hschema hm
    have hreads := Select.reads?_table (s := aggregateSelect m func keys columns) rfl hc
    rw [numberedRows_loaded hx] at hreads
    refine ⟨_, _, _, compound_aggregator hn hop hm, hreads, fun c hcolumn =>
      ⟨?_, fun group hgroup => ?_⟩⟩
    · rw [items_aggregateSelect]
      exact List.mem_append_right _ (List.mem_map_of_mem hcolumn)
    · obtain ⟨f, hf⟩ := Schema.field?_isSome ((names_of_aggregateField hfields).2 c hcolumn)
      have hscope := declares_ofNumbered hx ha m.name
      have hvalues : ((group.map fun i => numberedRow (x.rows.getD i []) i).map fun row =>
          (Expr.column m.name c).eval (Scope.ofNumbered m.name x.relation) row) =
            (group.map (t.cell c)).map (kept f.type) := by
        rw [List.map_map, List.map_map]
        refine List.map_congr_left fun i hi => ?_
        have hi := List.mem_range.1 (hgroup hi)
        exact hscope.eval (rowKeeps_numberedRow hx ho.names ha.nodup hi) hf
      exact aggregate_truth (List.forall_mem_map.2 fun i _ => cell hf i) hfunc (hscope.affinity hf) hvalues

/-- A column of texts, the rows in which it is true, and whether there are any. -/
def digits : Graph :=
  let k : Field := ⟨"k", .utf8, true⟩
  ⟨"s", #[⟨0, "ts_0", .source, ⟨[k]⟩⟩, ⟨1, "ts_1", .projection 0 ["k"] false, ⟨[k]⟩⟩,
    ⟨2, "ts_2", .selection 0 1, ⟨[k]⟩⟩,
    ⟨3, "ts_3", .aggregator 0 .any 0 [] ["k"], ⟨[⟨"k", .boolean, false⟩]⟩⟩],
    #[[1, 2, 3], [2], [], []]⟩

theorem constructed_digits : digits.Constructed :=
  .add (r := (3, digits)) (.add (.add (.add (.empty "s") (.source ⟨[⟨"k", .utf8, true⟩]⟩) rfl)
    (.projection 0 ["k"] false) rfl) (.selection 0 1) rfl) (.aggregate 0 .any) rfl

/-- The digit zero is true in memory. A query selects no row by it, and says that nothing is true. -/
theorem truths_agree_iff_digit :
    let t : Table := ⟨[⟨"k", [.text "0"]⟩]⟩
    let x : StoredTable := ⟨"ts_0", [("k", .text)], [[.text "0"]], default⟩
    let catalog : Catalog := ⟨fun name => if name = "ts_0" then some x.relation else none, default, none⟩
    ∃ fetch : Fetch, digits.InMemory fetch ∧ digits.evaluate fetch 2 = .ok (.table t) ∧
      (∃ sel r, digits.compound 2 = .ok [sel] ∧ sel.eval? catalog true = some r ∧ r.rows = []) ∧
      aggregate .any [.text "0"] = .ok (.bool true) ∧
      ∃ sel scope rows value, digits.compound 3 = .ok [sel] ∧
        sel.reads? catalog = some (scope, .ofRows rows) ∧
        (Expr.aggregate .any (.column "ts_0" "k")).evalGroup? scope rows = some value ∧
        value.toScalar.coerce .boolean ≠ .bool true := by
  intro t x catalog
  let fetch : Fetch := fun d =>
    if d < 2 then .ok (.table t) else .error (.plan (.invariant (.unknownNode d)))
  have hmemory : digits.InMemory fetch := by
    rintro (_ | _ | d) n w hn hs hw
    · obtain rfl := Option.some.inj hn
      cases hs
    · obtain rfl := Except.ok.inj hw
      have hv : digits.evaluate fetch 1 = .ok (.table t) := by decide +kernel
      exact hv
    · cases hw
  have hevaluate : digits.evaluate fetch 2 = .ok (.table t) := by decide +kernel
  have hobeys : t.Obeys .defined ⟨[⟨"k", .utf8, true⟩]⟩ :=
    ⟨by decide, .cons ⟨rfl, by unfold CellLaw.defined; decide +kernel⟩ .nil⟩
  have hloaded : x.IsLoaded t ⟨[⟨"k", .utf8, true⟩]⟩ := ⟨rfl, rfl, rfl, by decide⟩
  have hmisread : (t.cell "k" 0).IsMisread := ⟨by decide, by decide +kernel⟩
  have hdisputed : AggFunc.any.Disputes [.text "0"] := ⟨_, by simp, .inr (.inl rfl), by simp⟩
  obtain ⟨hselection, haggregator⟩ := @truths_agree_iff digits fetch 0 _ t catalog x
    constructed_digits hmemory rfl rfl (Table.level_singleton _) hobeys (List.pairwise_singleton _ _)
    hloaded rfl true
  obtain ⟨-, sel, r, isKept, isSelected, hkept, hcompound, hr, hrows, hiff⟩ :=
    @hselection 2 1 _ _ "k" false _ rfl rfl rfl rfl rfl
  obtain ⟨sel', scope, rowAt, hcompound', hreads, hall⟩ :=
    @haggregator 3 0 _ .any [] ["k"] rfl rfl (.inl rfl)
  obtain ⟨-, hgroup⟩ := hall "k" (List.mem_singleton_self _)
  obtain ⟨v, value, hv, hvalue, hcoerced⟩ := hgroup [0] (by simp [Table.rowCount, t])
  refine ⟨fetch, hmemory, hevaluate, ⟨sel, r, hcompound, hr, ?_⟩, rfl, sel', scope, _, value, hcompound',
    hreads, hvalue, ?_⟩
  · have hrange : List.range t.rowCount = [0] := rfl
    rw [hrange] at hkept hrows
    have hsame := (hkept not_false).symm.trans hevaluate
    cases hfirst : isKept 0 with
    | false =>
      rw [List.filter_cons_of_neg (by simp [hfirst])] at hsame
      have htables : Table.mk [⟨"k", []⟩] = ⟨[⟨"k", [.text "0"]⟩]⟩ :=
        Result.table.inj (Except.ok.inj hsame)
      cases htables
    | true =>
      have hselected : isSelected 0 = false :=
        Bool.eq_false_iff.2 fun h => (hiff 0 (by decide)).1 (hfirst.trans h.symm) hmisread
      rw [hrows, List.filter_cons_of_neg (by simp [hselected])]
      rfl
  · obtain rfl := Except.ok.inj hv
    exact fun h => hcoerced.1 h hdisputed

end Graph
end LazyQuery
