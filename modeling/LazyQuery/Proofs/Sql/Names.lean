import LazyQuery.Proofs.Graph.Columns
import LazyQuery.Proofs.Sql.Compile
import LazyQuery.Proofs.Sql.Headings
import Mathlib.Data.List.Pairwise

/-!
# Names of results

What the columns of a result are called, whatever its rows are. The statement of a node yields the
node's columns, if the tables that it reads have theirs (`compound_names`). That no two columns of a
table are the same to a query is needed for it: of two such columns a name always means the first.

A table that is created from a result has the names of the result's columns if they can be kept
(`Schema.IsKept`): no two of them are the same to a query and none reads as a truth value.
-/

set_option autoImplicit false

namespace LazyQuery

open Sql

/-- A table that is created from a query keeps the names: no two of them are the same to a query, and
none reads as a truth value. -/
structure Schema.IsKept (s : Schema) : Prop where
  apart : s.Apart
  notTruth : ∀ n ∈ s.names, sameName n "true" = false ∧ sameName n "false" = false

namespace Sql

/-- Names that are kept get no counter and are not replaced. -/
theorem tableNames_eq (plan : Plan) {names taken : List String}
    (ha : (taken ++ names).Pairwise fun a b => sameName a b = false)
    (ht : ∀ n ∈ names, sameName n "true" = false ∧ sameName n "false" = false) (i : Nat) :
    tableNames plan taken i names = names := by
  induction names generalizing taken i with
  | nil => rfl
  | cons n rest ih =>
    rw [List.forall_mem_cons] at ht
    have hfresh : taken.any (sameName n) = false := by
      rw [List.any_eq_false]
      intro m hm
      rw [sameName_comm, (List.pairwise_append.1 ha).2.2 m hm n (by simp)]
      exact Bool.false_ne_true
    have hname : freshName plan taken n = n := by
      rw [freshName, List.find?_cons_of_pos (by rw [hfresh, Bool.not_false])]
      rfl
    rw [tableNames, ht.1.1, ht.1.2]
    simp only [Bool.or_self, Bool.false_eq_true, if_false, hname]
    rw [ih (by rwa [List.append_assoc]) ht.2]

theorem names_asTable (plan : Plan) (r : Relation) :
    (r.asTable plan).names = tableNames plan [] 0 r.names := by
  have hlen : ∀ (names taken : List String) (i : Nat),
      (tableNames plan taken i names).length = names.length := by
    intro names
    induction names with
    | nil => intro taken i; rfl
    | cons n rest ih => intro taken i; simp [tableNames, ih]
  rw [Relation.names, Relation.asTable]
  refine List.ext_getElem (by simp [hlen, Relation.names]) fun j _ _ => ?_
  simp [Relation.names]

end Sql

/-- The names of a schema that can be kept are kept. -/
theorem Schema.IsKept.tableNames {s : Schema} (h : s.IsKept) (plan : Plan) :
    Sql.tableNames plan [] 0 s.names = s.names :=
  tableNames_eq plan (by rw [List.nil_append]; exact h.apart) h.notTruth 0

namespace Sql

/-! ## Columns in scope -/

/-- Of names that are not the same to a query, each is the same as itself only. -/
theorem eq_of_sameName {names : List String} (h : names.Pairwise fun a b => sameName a b = false)
    {a b : String} (ha : a ∈ names) (hb : b ∈ names) (hs : sameName a b = true) : a = b := by
  have : Std.Symm fun a b : String => sameName a b = false :=
    ⟨fun a b hab => (sameName_comm b a).trans hab⟩
  refine Classical.byContradiction fun hne => ?_
  rw [h.forall ha hb hne] at hs
  cases hs

/-- The columns of a table stand in scope under their own names. -/
def Scope.Offers (scope : Scope) (table : String) (names : List String) : Prop :=
  ∀ c ∈ names, Item.resultName scope ⟨.column table c, none⟩ = c

/-- The columns of one table are found, if no two of them are the same. -/
theorem offers_ofNumbered (table : String) {r : Relation}
    (h : r.names.Pairwise fun a b => sameName a b = false) :
    (Scope.ofNumbered table r).Offers table r.names := by
  intro c hc
  obtain ⟨i, hi⟩ : ∃ i, (Scope.ofNumbered table r).findIdx? (fun b =>
      !b.isNumber && sameName b.table table && sameName b.heading.name c) = some i := by
    rw [← Option.isSome_iff_exists, List.findIdx?_isSome, List.any_eq_true]
    obtain ⟨heading, hh, rfl⟩ := List.mem_map.1 hc
    exact ⟨⟨table, heading, false⟩, List.mem_append_left _ (List.mem_map_of_mem hh), by simp⟩
  obtain ⟨hlt, htest, -⟩ := List.findIdx?_eq_some_iff_getElem.1 hi
  have hindex : (Scope.ofNumbered table r).index? table c = some i := by
    rw [Scope.index?, Scope.indexWhere?, hi]
  have hmem : (Scope.ofNumbered table r)[i] ∈ Scope.ofNumbered table r := List.getElem_mem hlt
  simp only [Bool.and_eq_true, Bool.not_eq_true'] at htest
  rw [Item.resultName]
  dsimp only
  rw [hindex, Option.bind_some, List.getElem?_eq_getElem hlt]
  dsimp only
  refine eq_of_sameName h ?_ hc htest.2
  rcases List.mem_append.1 hmem with hmem | hmem
  · obtain ⟨heading, hh, he⟩ := List.mem_map.1 hmem
    rw [← he]
    exact List.mem_map_of_mem hh
  · -- The number of the row is no column.
    split at hmem
    · rw [List.mem_singleton.1 hmem] at htest
      cases htest.1.1
    · cases hmem

namespace Scope.Offers

variable {scope : Scope} {table : String} {names : List String}

theorem columnItems (h : scope.Offers table names) {columns : List String}
    (hc : ∀ c ∈ columns, c ∈ names) :
    (Graph.columnItems table columns).map (·.resultName scope) = columns := by
  rw [Graph.columnItems, List.map_map]
  exact (List.map_congr_left fun c hm => h c (hc c hm)).trans (List.map_id _)

theorem renameItems {n : Node} (h : scope.Offers n.name n.columns)
    (mapping : List (String × String)) :
    (Graph.renameItems n mapping).map (·.resultName scope) =
      n.columns.map (Table.newName mapping) := by
  rw [Graph.renameItems, List.map_map]
  refine List.map_congr_left fun c hc => ?_
  rw [Function.comp, Table.newName]
  cases mapping.find? (·.1 == c) with
  | none => exact h c hc
  | some p => rfl

theorem assignItems {n : Node} (h : scope.Offers n.name n.columns) (column : String) (e : Expr) :
    (Graph.assignItems n column e).map (·.resultName scope) =
      if column ∈ n.columns then n.columns else n.columns ++ [column] := by
  have placed : (n.columns.map fun c =>
      if c = column then (⟨e, some column⟩ : Item) else ⟨.column n.name c, none⟩).map
        (·.resultName scope) = n.columns := by
    rw [List.map_map]
    refine (List.map_congr_left fun c hc => ?_).trans (List.map_id _)
    rw [Function.comp]
    split
    · rename_i hcolumn
      exact hcolumn.symm
    · exact h c hc
  rw [Graph.assignItems]
  by_cases hmem : column ∈ n.columns
  · rw [if_pos hmem, if_pos (by simpa using hmem), placed]
  · rw [if_neg hmem, if_neg (by simpa using hmem), List.map_append, placed]
    rfl

theorem aggregateItems {n : Node} (h : scope.Offers n.name n.columns) {func : AggFunc}
    {keys columns : List String} (hk : ∀ k ∈ keys, k ∈ n.columns) :
    (Graph.aggregateSelect n func keys columns).items.map (·.resultName scope) = keys ++ columns := by
  simp only [Graph.aggregateSelect, List.map_append, List.map_map]
  refine congr (congrArg _ ?_) ?_
  · exact (List.map_congr_left fun k hm => h k (hk k hm)).trans (List.map_id _)
  · exact (List.map_congr_left fun c _ => rfl).trans (List.map_id _)

end Scope.Offers

/-! ## Statements of nodes -/

/-- What the names of a result hang on: the items and what is read. -/
def Select.shape (s : Select) : List Item × Option Input := (s.items, s.input?)

section

variable {catalog : Catalog} {asked : Bool} {c : Compound} {r : Relation} {items : List Item}
  {rest : List (List Item × Option Input)}

theorem names_of_shape {input? : Option Input}
    (hc : c.map Select.shape = (items, input?) :: rest)
    (h : evalCompound? catalog asked c = some r) :
    ∃ (s : Select) (scope : Scope) (input : Delivery (List Datum)), s.input? = input? ∧
      s.reads? catalog = some (scope, input) ∧
      r.names = items.map (·.resultName scope) := by
  obtain ⟨s, others, p, parts, rfl, hp, -, hnames, -⟩ := evalCompound?_eq_some h
  obtain ⟨scope, input, hin, hitems⟩ := Select.names_of_eval? hp
  rw [List.map_cons, List.cons.injEq, Select.shape, Prod.mk.injEq] at hc
  exact ⟨s, scope, input, hc.1.2, hin, by rw [hnames, hitems, hc.1.1]⟩

/-- What reads one table has its names from the scope of that table. -/
theorem names_of_table {table : String}
    (hc : c.map Select.shape = (items, some (.table table)) :: rest)
    (h : evalCompound? catalog asked c = some r) :
    ∃ q, catalog table = some q ∧
      r.names = items.map (·.resultName (Scope.ofNumbered table q)) := by
  obtain ⟨s, scope, input, hinput, hin, hnames⟩ := names_of_shape hc h
  rw [Select.reads?, hinput] at hin
  obtain ⟨q, hq, hscope⟩ := Option.bind_eq_some_iff.1 hin
  cases hscope
  exact ⟨q, hq, hnames⟩

/-- What gives all its columns names has them. -/
theorem names_of_named {input? : Option Input} {names : List String}
    (hc : c.map Select.shape = (items, input?) :: rest) (hn : items.map (·.name?) = names.map some)
    (h : evalCompound? catalog asked c = some r) : r.names = names := by
  obtain ⟨s, scope, input, -, -, hnames⟩ := names_of_shape hc h
  rw [hnames]
  clear hc hnames
  induction items generalizing names with
  | nil => exact (List.map_eq_nil_iff.1 hn.symm).symm
  | cons i items ih =>
    cases names with
    | nil => cases hn
    | cons n names =>
      rw [List.map_cons, List.map_cons, List.cons.injEq] at hn
      rw [List.map_cons, ih hn.2, Item.resultName, hn.1]

end

end Sql

namespace Graph

variable {g : Graph} {catalog : Catalog} {asked : Bool} {id : NodeId} {n : Node} {c : Compound}
  {r : Relation}

/-- **The statement of a node has the columns of the node**, also with other conditions, if the tables
that it reads have the columns of theirs. -/
theorem compound_names (hg : g.WellFormed) (hn : g.node? id = some n) {body : Compound}
    (hbody : g.compound id = .ok body) (hc : c.map Select.shape = body.map Select.shape)
    (hapart : ∀ t ∈ n.op.tables, ∀ m, g.node? t = some m → m.schema.Apart)
    (hcat : ∀ t ∈ n.op.tables, ∀ m, g.node? t = some m → ∀ q, catalog m.name = some q →
      q.names = m.columns)
    (h : evalCompound? catalog asked c = some r) : r.names = n.columns := by
  have reading {t : NodeId} {m : Node} {items : List Item} {rest : List (List Item × Option Input)}
      (ht : t ∈ n.op.tables) (hm : g.node? t = some m)
      (hshape : body.map Select.shape = (items, some (.table m.name)) :: rest) :
      ∃ scope : Scope, scope.Offers m.name m.columns ∧ r.names = items.map (·.resultName scope) := by
    obtain ⟨q, hq, hnames⟩ := names_of_table (hc.trans hshape) h
    have hcolumns := hcat t ht m hm q hq
    refine ⟨_, hcolumns ▸ offers_ofNumbered m.name ?_, hnames⟩
    rw [hcolumns]
    exact hapart t ht m hm
  have hschema := hg.hasSchema hn
  rw [compound, node_eq_ok.2 hn, ok_bind] at hbody
  obtain ⟨i, name, op, s⟩ := n
  cases op <;> simp only [Op.HasSchema] at hschema
  case source | describe | apply | groupBy | groupProjection => cases hbody
  case constant v =>
    subst hschema
    cases hbody
    exact names_of_named hc rfl h
  case criterion o cr =>
    obtain ⟨⟨column, rfl⟩, -⟩ := hschema
    simp only [bind_eq_ok, pure_eq_ok] at hbody
    obtain ⟨_, ⟨m, hm, _, ⟨e, he, ⟨⟩⟩, ⟨⟩⟩, ⟨⟩⟩ := hbody
    exact names_of_named hc rfl h
  case arithmetic o a =>
    obtain ⟨column, type, rfl, -⟩ := hschema
    simp only [bind_eq_ok, pure_eq_ok] at hbody
    obtain ⟨_, ⟨m, hm, _, ⟨e, he, ⟨⟩⟩, ⟨⟩⟩, ⟨⟩⟩ := hbody
    exact names_of_named hc rfl h
  case projection t columns distinct =>
    obtain ⟨-, -, input, hinput, hproject⟩ := hschema
    simp only [bind_eq_ok, pure_eq_ok, node_eq_ok] at hbody
    obtain ⟨_, ⟨m, hm, _, ⟨⟩, ⟨⟩⟩, ⟨⟩⟩ := hbody
    obtain ⟨scope, hoffers, hnames⟩ := reading (List.mem_singleton_self t) hm rfl
    obtain rfl := schema_eq hinput hm
    refine hnames.trans ?_
    rw [Node.columns, Schema.names_project hproject]
    exact hoffers.columnItems (Schema.mem_names_of_project hproject)
  case selection t cr =>
    simp only [bind_eq_ok, pure_eq_ok, node_eq_ok] at hbody
    obtain ⟨_, ⟨m, hm, _, ⟨⟩, ⟨⟩⟩, e, he, ⟨⟩⟩ := hbody
    obtain ⟨scope, hoffers, hnames⟩ := reading (List.mem_singleton_self t) hm rfl
    obtain rfl := schema_eq hschema hm
    exact hnames.trans (hoffers.columnItems fun _ h => h)
  case join l r' leftOn rightOn how layout =>
    obtain ⟨rfl, i, j, -, -, hmake⟩ := hschema
    simp only [bind_eq_ok, pure_eq_ok, node_eq_ok] at hbody
    obtain ⟨m, hm, m', hm', ⟨⟩⟩ := hbody
    refine names_of_named hc ?_ h
    rw [Node.columns, JoinLayout.names_of_make hmake]
    simp [joinSelect, Select.ofInput, Function.comp_def]
  case union inputs =>
    obtain ⟨first, rest, input, rfl, hinput, hwiden⟩ := hschema
    simp only [List.mapM_cons, bind_eq_ok, pure_eq_ok, node_eq_ok] at hbody
    obtain ⟨_, ⟨m, hm, _, ⟨⟩, ⟨⟩⟩, parts, -, ⟨⟩⟩ := hbody
    obtain ⟨scope, hoffers, hnames⟩ := reading List.mem_cons_self hm rfl
    obtain rfl := schema_eq hinput hm
    refine hnames.trans (hoffers.columnItems fun c hc => ?_)
    rwa [Node.columns, Graph.names_of_widenBy hwiden] at hc
  case orderBy t keys =>
    simp only [bind_eq_ok, pure_eq_ok, node_eq_ok] at hbody
    obtain ⟨m, hm, ⟨⟩⟩ := hbody
    obtain ⟨scope, hoffers, hnames⟩ := reading (List.mem_singleton_self t) hm rfl
    obtain rfl := schema_eq hschema.2.1 hm
    exact hnames.trans (hoffers.columnItems fun _ h => h)
  case limit t k =>
    simp only [bind_eq_ok, pure_eq_ok, node_eq_ok] at hbody
    obtain ⟨_, ⟨m, hm, _, ⟨⟩, ⟨⟩⟩, ⟨⟩⟩ := hbody
    obtain ⟨scope, hoffers, hnames⟩ := reading (List.mem_singleton_self t) hm rfl
    obtain rfl := schema_eq hschema hm
    exact hnames.trans (hoffers.columnItems fun _ h => h)
  case aggregator source func input keys columns =>
    obtain ⟨-, s', keyFields, fields, hs', hkeys, hfields, rfl⟩ := hschema
    simp only [bind_eq_ok, pure_eq_ok, node_eq_ok] at hbody
    obtain ⟨m, hm, ⟨⟩⟩ := hbody
    obtain ⟨scope, hoffers, hnames⟩ := reading (List.mem_singleton_self input) hm rfl
    obtain rfl := schema_eq hs' hm
    obtain ⟨hkeyNames, hmem⟩ := names_of_keyField hkeys
    refine (hnames.trans (hoffers.aggregateItems hmem)).trans ?_
    rw [Node.columns, Schema.names, List.map_append, hkeyNames, (names_of_aggregateField hfields).1]
  case rename t mapping =>
    obtain ⟨-, input, hinput, -, rfl⟩ := hschema
    simp only [bind_eq_ok, pure_eq_ok, node_eq_ok] at hbody
    obtain ⟨_, ⟨m, hm, _, ⟨⟩, ⟨⟩⟩, ⟨⟩⟩ := hbody
    obtain ⟨scope, hoffers, hnames⟩ := reading (List.mem_singleton_self t) hm rfl
    obtain rfl := schema_eq hinput hm
    refine (hnames.trans (hoffers.renameItems mapping)).trans ?_
    rw [Node.columns, Node.columns, Schema.names_renamed]
  case assign t column value =>
    obtain ⟨input, f, hinput, hf, rfl⟩ := hschema
    simp only [bind_eq_ok, pure_eq_ok, node_eq_ok] at hbody
    obtain ⟨_, ⟨m, hm, _, ⟨e, he, ⟨⟩⟩, ⟨⟩⟩, ⟨⟩⟩ := hbody
    obtain ⟨scope, hoffers, hnames⟩ := reading (List.mem_singleton_self t) hm rfl
    obtain rfl := schema_eq hinput hm
    refine (hnames.trans (hoffers.assignItems column e)).trans ?_
    rw [Node.columns, Node.columns, Schema.names_put]

end Graph
end LazyQuery
