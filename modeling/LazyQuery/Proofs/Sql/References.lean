import LazyQuery.Proofs.Graph.Columns
import LazyQuery.Proofs.Sql.Compile
import LazyQuery.Proofs.Sql.Join
import LazyQuery.Sql.Answer

/-!
# What the columns in statements refer to

A column in a statement is named with a table, under what the table is called in the `FROM` clause of the
same `SELECT`. Expressions of conditions, arithmetic and assigned values are written out in the statement
of another node, however deeply they are nested, so that their columns have to be those of the table that
this other node works on.

* `Graph.expression_references`: an operand names columns of its owner only. This is where it counts that
  constructors refuse operands of different tables.
* `Graph.IsPart` says what the expressions of a statement are: columns of what stands in the `FROM` clause,
  and operands that belong to it. `Graph.compound_madeOf` goes through the operations.
* `Graph.compound_scoped` puts the two together.
-/

set_option autoImplicit false

namespace LazyQuery

open Sql

namespace Sql

/-- The columns that an expression names with their tables. -/
def Expr.references : Expr → List (String × String)
  | column t c => [(t, c)]
  | compare _ l r | arith _ l r | and l r | or l r => l.references ++ r.references
  | not e | like e _ | isNull e | asReal e | neg e | bitNot e | aggregate _ e => e.references
  | literal _ | bare _ | rowid => []

/-- The expressions that two tables are joined on. -/
def Input.exprs : Input → List Expr
  | table _ => []
  | join _ _ _ _ on => on.map (·.1) ++ on.map (·.2)

/-- What the tables are called in a `FROM` clause, with their own names. -/
def Input.labels : Input → List (String × String)
  | table name => [(name, name)]
  | join left _ right rename? _ => [(left, left), (rename?.getD right, right)]

namespace Select

/-- What the tables are called that a `SELECT` reads, with their own names. -/
def labels (s : Select) : List (String × String) := s.input?.elim [] Input.labels

/-- The expressions of a `SELECT`, with those that tables are joined on. -/
def allExprs (s : Select) : List Expr := s.exprs ++ s.input?.elim [] Input.exprs

/-- The columns that a `SELECT` names with their tables. -/
def references (s : Select) : List (String × String) := s.allExprs.flatMap Expr.references

/-- What holds of the expressions of a `SELECT`, clause by clause. -/
theorem forall_mem_exprs {s : Select} {P : Expr → Prop} : (∀ e ∈ s.exprs, P e) ↔
    (∀ i ∈ s.items, P i.expr) ∧ (∀ e ∈ s.condition?, P e) ∧ (∀ e ∈ s.groupBy, P e) ∧
      ∀ k ∈ s.orderBy, P k.expr := by
  simp only [exprs, List.forall_mem_append, List.forall_mem_map, Option.mem_toList, Option.mem_def,
    and_assoc]

end Select

variable {p : String × String}

theorem mem_references_arith {op : ArithOp} {l r : Expr} (h : p ∈ (op.expr l r).references) :
    p ∈ l.references ∨ p ∈ r.references := by
  cases op <;> simp only [ArithOp.expr, Expr.references, List.mem_append] at h <;> tauto

theorem references_unary (op : UnaryOp) (e : Expr) : (op.expr e).references = e.references := by
  cases op <;> rfl

end Sql

namespace Graph

variable {g : Graph} {id owner : NodeId} {m n : Node}

/-! ## Operands -/

/-- An operand names columns of its owner only, at any depth of nesting. -/
theorem expressionWithin_references (hg : g.WellFormed) (hm : g.node? owner = some m) {fuel : Nat}
    {a : NodeId} (ha : g.Has (·.IsOperandOf owner) a) {e : Expr}
    (he : g.expressionWithin fuel a = .ok e) :
    ∀ p ∈ e.references, p.1 = m.name ∧ p.2 ∈ m.columns := by
  induction fuel generalizing a e with
  | zero =>
    obtain ⟨n, -, he⟩ := bind_eq_ok.1 he
    cases he
  | succ fuel ih =>
    obtain ⟨n, hn, ho⟩ := ha
    rw [expressionWithin, node_eq_ok.2 hn, ok_bind] at he
    have hl := hg.linked hn
    have hs := hg.hasSchema hn
    obtain ⟨i, name, op, s⟩ := n
    dsimp only at he
    cases op <;> simp only [Op.IsOperandOf] at ho
    case constant v =>
      cases he
      intro _ hp
      cases hp
    case projection t columns distinct =>
      obtain _ | ⟨c, _ | _⟩ := columns <;> simp only at ho
      subst ho
      obtain ⟨-, -, schema, hschema, hproject⟩ := hs
      obtain rfl := schema_eq hschema hm
      dsimp only at he
      rw [node_eq_ok.2 hm] at he
      cases he
      intro p hp
      obtain rfl := List.mem_singleton.1 hp
      exact ⟨rfl, Schema.mem_names_of_project hproject c (List.mem_singleton_self c)⟩
    case criterion o c =>
      subst ho
      have operand {b : NodeId} (hb : b ∈ c.operands) {x : Expr}
          (hx : g.expressionWithin fuel b = .ok x) := ih (hl.2 b hb) hx
      cases c
      case compare | and | or =>
        obtain ⟨x, hx, he⟩ := bind_eq_ok.1 he
        obtain ⟨y, hy, he⟩ := bind_eq_ok.1 he
        cases he
        exact List.forall_mem_append.2
          ⟨operand (by simp [Criterion.operands]) hx, operand (by simp [Criterion.operands]) hy⟩
      case like | isNull | not =>
        obtain ⟨x, hx, he⟩ := bind_eq_ok.1 he
        cases he
        exact fun p hp => operand (List.mem_singleton_self _) hx p hp
    case arithmetic o expression =>
      subst ho
      have operand {b : NodeId} (hb : b ∈ expression.operands) {x : Expr}
          (hx : g.expressionWithin fuel b = .ok x) := ih (hl.2 b hb) hx
      cases expression
      case binary op l r =>
        obtain ⟨x, hx, he⟩ := bind_eq_ok.1 he
        obtain ⟨y, hy, he⟩ := bind_eq_ok.1 he
        cases he
        exact fun p hp => (mem_references_arith hp).elim
          (operand (by simp [Arithmetic.operands]) hx p)
          (operand (by simp [Arithmetic.operands]) hy p)
      case unary op b =>
        obtain ⟨x, hx, he⟩ := bind_eq_ok.1 he
        cases he
        rw [references_unary]
        exact operand (List.mem_singleton_self b) hx

theorem expression_references (hg : g.WellFormed) (hm : g.node? owner = some m) {a : NodeId}
    (ha : g.Has (·.IsOperandOf owner) a) {e : Expr} (he : g.expression a = .ok e) :
    ∀ p ∈ e.references, p.1 = m.name ∧ p.2 ∈ m.columns :=
  expressionWithin_references hg hm ha he

/-! ## Statements -/

/-- What an expression of a statement is: a literal, a column of a table in the `FROM` clause, the
aggregate of one, or an operand that belongs to a table there. -/
inductive IsPart (g : Graph) (operands : List NodeId) (labels : List (String × String)) : Expr → Prop
  | literal (v : Scalar) : IsPart g operands labels (.literal v)
  | column {label c : String} {d : NodeId} {m : Node} (hm : g.node? d = some m)
      (hlabel : (label, m.name) ∈ labels) (hc : c ∈ m.columns) :
      IsPart g operands labels (.column label c)
  | aggregate (func : AggFunc) {e : Expr} (h : IsPart g operands labels e) :
      IsPart g operands labels (.aggregate func e)
  | operand {a owner : NodeId} {m : Node} {e : Expr} (ha : a ∈ operands)
      (hm : g.node? owner = some m) (hlabel : (m.name, m.name) ∈ labels)
      (ho : g.Has (·.IsOperandOf owner) a) (he : g.expression a = .ok e) :
      IsPart g operands labels e

/-- What the columns of a part refer to. -/
theorem IsPart.references (hg : g.WellFormed) {operands : List NodeId}
    {labels : List (String × String)} {e : Expr} (h : g.IsPart operands labels e) :
    ∀ p ∈ e.references, ∃ d m, g.node? d = some m ∧ (p.1, m.name) ∈ labels ∧ p.2 ∈ m.columns := by
  induction h with
  | literal v => exact fun _ hp => nomatch hp
  | column hm hlabel hc =>
    intro p hp
    obtain rfl := List.mem_singleton.1 hp
    exact ⟨_, _, hm, hlabel, hc⟩
  | aggregate func _ ih => exact ih
  | operand _ hm hlabel ho he =>
    intro p hp
    obtain ⟨htable, hcolumn⟩ := expression_references hg hm ho he p hp
    exact ⟨_, _, hm, htable ▸ hlabel, hcolumn⟩

/-- The sides of a join are called differently, also where a table is joined with itself. -/
theorem sameName_rightLabel (hg : g.WellFormed) {l r : NodeId} {ln rn : Node}
    (hl : g.node? l = some ln) (hr : g.node? r = some rn) :
    sameName ln.name (rightLabel ln rn) = false := by
  rw [rightLabel, name_of_node? hg hl, name_of_node? hg hr, hg.id_eq hl, hg.id_eq hr]
  by_cases hlr : l = r
  · subst hlr
    rw [if_pos (beq_self_eq_true l), Bool.eq_false_iff, Ne, sameName_iff, folded_append]
    intro h
    have := congrArg List.length h
    rw [List.length_append, show (Like.folded "_rhs").length = 4 from by decide] at this
    omega
  · rw [if_neg (by simpa using hlr)]
    exact sameName_tableName_ne hlr

theorem labels_joinSelect (ln rn : Node) (leftOn rightOn : List String) (how : JoinType)
    (layout : JoinLayout) : (joinSelect ln rn leftOn rightOn how layout).labels =
      [(ln.name, ln.name), (rightLabel ln rn, rn.name)] :=
  congrArg (fun label => [(ln.name, ln.name), (label, rn.name)]) (getD_rightLabel ln rn)

/-- What the statement of a node is made of. -/
structure MadeOf (g : Graph) (operands : List NodeId) (s : Select) : Prop where
  parts : ∀ e ∈ s.allExprs, g.IsPart operands s.labels e
  apart : s.labels.Pairwise fun a b => sameName a.1 b.1 = false

section

variable {operands : List NodeId} {d : NodeId} {s : Select}

/-- A `SELECT` from one table is made of its columns and of operands that belong to it. -/
theorem madeOf_table {name : String} (hinput : s.input? = some (.table name))
    (h : ∀ e ∈ s.exprs, g.IsPart operands [(name, name)] e) : g.MadeOf operands s := by
  have hlabels : s.labels = [(name, name)] := by
    rw [Select.labels, hinput]
    rfl
  refine ⟨fun e he => ?_, hlabels ▸ List.pairwise_singleton _ _⟩
  rw [Select.allExprs, hinput, Option.elim_some, Input.exprs, List.append_nil] at he
  exact hlabels ▸ h e he

theorem madeOf_items {name : String} {items : List Item}
    (h : ∀ i ∈ items, g.IsPart operands [(name, name)] i.expr) :
    g.MadeOf operands (.ofInput items (.table name)) :=
  madeOf_table rfl (Select.forall_mem_exprs.2 ⟨h, by simp [Select.ofInput]⟩)

variable {labels : List (String × String)} {label : String}

theorem isPart_columnItems (hm : g.node? d = some m) (hlabel : (label, m.name) ∈ labels)
    {columns : List String} (hc : ∀ c ∈ columns, c ∈ m.columns) :
    ∀ i ∈ columnItems label columns, g.IsPart operands labels i.expr :=
  List.forall_mem_map.2 fun c hmem => .column hm hlabel (hc c hmem)

theorem isPart_renameItems (hm : g.node? d = some m) (hlabel : (m.name, m.name) ∈ labels)
    (mapping : List (String × String)) :
    ∀ i ∈ renameItems m mapping, g.IsPart operands labels i.expr := by
  refine List.forall_mem_map.2 fun c hc => ?_
  split <;> exact .column hm hlabel hc

theorem isPart_assignItems (hm : g.node? d = some m) (hlabel : (m.name, m.name) ∈ labels)
    (column : String) {e : Expr} (he : g.IsPart operands labels e) :
    ∀ i ∈ assignItems m column e, g.IsPart operands labels i.expr := by
  have placed : ∀ i ∈ m.columns.map fun c =>
      if c = column then (⟨e, some column⟩ : Item) else ⟨.column m.name c, none⟩,
        g.IsPart operands labels i.expr := by
    refine List.forall_mem_map.2 fun c hc => ?_
    split
    · exact he
    · exact .column hm hlabel hc
  rw [assignItems]
  split
  · exact placed
  · exact List.forall_mem_append.2 ⟨placed, List.forall_mem_singleton.2 he⟩

theorem madeOf_aggregateSelect (hm : g.node? d = some m) (func : AggFunc) {keys columns : List String}
    (hk : ∀ k ∈ keys, k ∈ m.columns) (hc : ∀ c ∈ columns, c ∈ m.columns) :
    g.MadeOf operands (aggregateSelect m func keys columns) := by
  have column {c : String} (hc : c ∈ m.columns) :
      g.IsPart operands [(m.name, m.name)] (.column m.name c) :=
    .column hm (List.mem_singleton_self _) hc
  have keyed : ∀ e ∈ keys.map fun k => Expr.column m.name k, g.IsPart operands [(m.name, m.name)] e :=
    List.forall_mem_map.2 fun k hmem => column (hk k hmem)
  refine madeOf_table rfl (Select.forall_mem_exprs.2 ⟨?_, nofun, keyed, List.forall_mem_map.2 keyed⟩)
  exact List.forall_mem_append.2
    ⟨List.forall_mem_map.2 keyed, List.forall_mem_map.2 fun c hmem => .aggregate func (column (hc c hmem))⟩

theorem madeOf_joinSelect (hg : g.WellFormed) {l r : NodeId} {ln rn : Node} (hl : g.node? l = some ln)
    (hr : g.node? r = some rn) {leftOn rightOn : List String} {outer : Bool} (how : JoinType)
    {layout : JoinLayout}
    (hmake : JoinLayout.make ln.schema rn.schema leftOn rightOn outer = .ok layout) :
    g.MadeOf operands (joinSelect ln rn leftOn rightOn how layout) := by
  obtain ⟨hleft, hright, hleftOn, hrightOn⟩ := JoinLayout.sources_of_make hmake
  have hlabels := labels_joinSelect ln rn leftOn rightOn how layout
  refine ⟨?_, by simpa [hlabels] using sameName_rightLabel hg hl hr⟩
  rw [hlabels]
  generalize hpair : [(ln.name, ln.name), (rightLabel ln rn, rn.name)] = labels
  have left {c : String} (hc : c ∈ ln.columns) : g.IsPart operands labels (.column ln.name c) :=
    .column hl (by simp [← hpair]) hc
  have right {c : String} (hc : c ∈ rn.columns) :
      g.IsPart operands labels (.column (rightLabel ln rn) c) :=
    .column hr (by simp [← hpair]) hc
  refine List.forall_mem_append.2
    ⟨Select.forall_mem_exprs.2 ⟨?_, by simp [joinSelect, Select.ofInput]⟩, ?_⟩
  · exact List.forall_mem_append.2 ⟨List.forall_mem_map.2 fun p hp => left (hleft p hp),
      List.forall_mem_map.2 fun p hp => right (hright p hp)⟩
  · refine List.forall_mem_append.2 ⟨?_, ?_⟩ <;>
      refine List.forall_mem_map.2 (List.forall_mem_map.2 fun p hp => ?_)
    · exact left (hleftOn _ (List.of_mem_zip hp).1)
    · exact right (hrightOn _ (List.of_mem_zip hp).2)

end

/-- **What the statement of a node is made of**: literals, columns of the tables that it reads, and
expressions of the node itself or of its operands, which belong to these tables. -/
theorem compound_madeOf (hg : g.WellFormed) (hn : g.node? id = some n) {body : Compound}
    (hbody : g.compound id = .ok body) :
    ∀ s ∈ body, g.MadeOf (id :: n.op.evalSources) s := by
  have hl := hg.linked hn
  have hs := hg.hasSchema hn
  have all {m : Node} {t : NodeId} {operands : List NodeId} (hm : g.node? t = some m) :
      ∀ i ∈ allItems m, g.IsPart operands [(m.name, m.name)] i.expr :=
    isPart_columnItems hm (List.mem_singleton_self _) fun _ hc => hc
  rw [compound, node_eq_ok.2 hn, ok_bind] at hbody
  obtain ⟨i, name, op, s⟩ := n
  cases op <;> simp only [bind_eq_ok, pure_eq_ok, throw_eq_error, reduceCtorEq, Except.ok.injEq,
    node_eq_ok] at hbody
  case constant v =>
    subst hbody
    refine List.forall_mem_singleton.2 ⟨?_, List.Pairwise.nil⟩
    exact fun e he => List.mem_singleton.1 he ▸ .literal v
  case criterion o c =>
    obtain ⟨_, ⟨m, hm, _, ⟨e, he, ⟨⟩⟩, ⟨⟩⟩, ⟨⟩⟩ := hbody
    refine List.forall_mem_singleton.2 (madeOf_items (List.forall_mem_singleton.2 ?_))
    exact .operand List.mem_cons_self hm (List.mem_singleton_self _) ⟨_, hn, rfl⟩ he
  case arithmetic o a =>
    obtain ⟨_, ⟨m, hm, _, ⟨e, he, ⟨⟩⟩, ⟨⟩⟩, ⟨⟩⟩ := hbody
    refine List.forall_mem_singleton.2 (madeOf_items (List.forall_mem_singleton.2 ?_))
    exact .operand List.mem_cons_self hm (List.mem_singleton_self _) ⟨_, hn, rfl⟩ he
  case projection t columns distinct =>
    obtain ⟨_, ⟨m, hm, _, ⟨⟩, ⟨⟩⟩, ⟨⟩⟩ := hbody
    obtain ⟨-, -, input, hinput, hproject⟩ := hs
    obtain rfl := schema_eq hinput hm
    refine List.forall_mem_singleton.2 (madeOf_table rfl (Select.forall_mem_exprs.2 ⟨?_, ?_⟩))
    · exact isPart_columnItems hm (List.mem_singleton_self _) (Schema.mem_names_of_project hproject)
    · simp [Select.ofInput]
  case selection t c =>
    obtain ⟨_, ⟨m, hm, _, ⟨⟩, ⟨⟩⟩, e, he, ⟨⟩⟩ := hbody
    refine List.forall_mem_singleton.2 (madeOf_table rfl (Select.forall_mem_exprs.2 ⟨all hm, ?_⟩))
    refine ⟨fun x hx => ?_, by simp [Select.ofInput], by simp [Select.ofInput]⟩
    obtain rfl : e = x := Option.some.inj hx
    exact .operand (by simp [Op.evalSources]) hm (List.mem_singleton_self _)
      (hl.2.mono fun _ h => h.isOperandOf) he
  case join l r leftOn rightOn how layout =>
    obtain ⟨ln, hln, rn, hrn, ⟨⟩⟩ := hbody
    obtain ⟨-, i, j, hi, hj, hmake⟩ := hs
    obtain rfl := schema_eq hi hln
    obtain rfl := schema_eq hj hrn
    exact List.forall_mem_singleton.2 (madeOf_joinSelect hg hln hrn how hmake)
  case union inputs =>
    obtain ⟨first, rest, input, rfl, hinput, hwiden⟩ := hs
    intro part hpart
    obtain ⟨d, hd, hbody⟩ := exists_of_mem_mapM hbody hpart
    simp only [bind_eq_ok, node_eq_ok] at hbody
    obtain ⟨m, hm, _, ⟨⟩, ⟨⟩⟩ := hbody
    refine madeOf_items (isPart_columnItems hm (List.mem_singleton_self _) fun c hc => ?_)
    rcases List.mem_cons.1 hd with rfl | hd
    · obtain rfl := schema_eq hinput hm
      rwa [Node.columns, names_of_widenBy hwiden] at hc
    · exact mem_names_of_widenBy hwiden d hd m hm c hc
  case orderBy t keys =>
    obtain ⟨m, hm, ⟨⟩⟩ := hbody
    obtain ⟨-, hinput, hrequire⟩ := hs
    obtain rfl := schema_eq hinput hm
    refine List.forall_mem_singleton.2 (madeOf_table rfl (Select.forall_mem_exprs.2 ⟨all hm, ?_⟩))
    refine ⟨by simp [Select.ofInput], by simp [Select.ofInput], List.forall_mem_map.2 fun k hk => ?_⟩
    exact .column hm (List.mem_singleton_self _)
      (Schema.require_eq_ok.1 hrequire _ (List.mem_map_of_mem hk))
  case limit t k =>
    obtain ⟨_, ⟨m, hm, _, ⟨⟩, ⟨⟩⟩, ⟨⟩⟩ := hbody
    refine List.forall_mem_singleton.2 (madeOf_table rfl (Select.forall_mem_exprs.2 ⟨all hm, ?_⟩))
    simp [Select.ofInput]
  case aggregator source func input keys columns =>
    obtain ⟨m, hm, ⟨⟩⟩ := hbody
    obtain ⟨-, i, keyFields, fields, hinput, hkeys, hfields, -⟩ := hs
    obtain rfl := schema_eq hinput hm
    exact List.forall_mem_singleton.2 (madeOf_aggregateSelect hm func (names_of_keyField hkeys).2
      (names_of_aggregateField hfields).2)
  case rename t mapping =>
    obtain ⟨_, ⟨m, hm, _, ⟨⟩, ⟨⟩⟩, ⟨⟩⟩ := hbody
    exact List.forall_mem_singleton.2
      (madeOf_items (isPart_renameItems hm (List.mem_singleton_self _) mapping))
  case assign t column value =>
    obtain ⟨_, ⟨m, hm, _, ⟨e, he, ⟨⟩⟩, ⟨⟩⟩, ⟨⟩⟩ := hbody
    refine List.forall_mem_singleton.2 (madeOf_items ?_)
    refine isPart_assignItems hm (List.mem_singleton_self _) column ?_
    exact .operand (by simp [Op.evalSources]) hm (List.mem_singleton_self _) hl.2 he

/-- Every column that a `SELECT` names is one of a table in its `FROM` clause, under what this is called
there. -/
structure Scopes (g : Graph) (s : Select) : Prop where
  /-- The column is named with what a node's table is called in the clause, and the node has it. -/
  references : ∀ p ∈ s.references,
    ∃ d m, g.node? d = some m ∧ (p.1, m.name) ∈ s.labels ∧ p.2 ∈ m.columns
  /-- No two tables in the clause are called the same. -/
  apart : s.labels.Pairwise fun a b => sameName a.1 b.1 = false

/-- **The columns in statements refer to the tables that are read.** A node that can be written as a
statement has one. It reads the tables of the nodes that the operation works on, and wherever a column is
named, also in expressions that are written out in it, this is a column of one of these tables, named with
what the table is called there. The sides of a join are called differently. -/
theorem compound_scoped (hg : g.Constructed) (hn : g.node? id = some n)
    (hst : n.op.hasStatement = true) :
    ∃ body, g.compound id = .ok body ∧ Compound.names body = n.op.tables.map g.tableName ∧
      ∀ s ∈ body, g.Scopes s := by
  obtain ⟨body, hbody, hnames⟩ := compound_spec hg.wellFormed hn hst
  refine ⟨body, hbody, hnames, fun s hs => ?_⟩
  obtain ⟨hparts, hapart⟩ := compound_madeOf hg.wellFormed hn hbody s hs
  refine ⟨fun p hp => ?_, hapart⟩
  obtain ⟨e, he, hp⟩ := List.mem_flatMap.1 hp
  exact (hparts e he).references hg.wellFormed p hp

/-- A base table, the condition on it that `k + v` is not less than `v`, the rows for which it holds, and
these joined with themselves. -/
def joinedSelection : Graph :=
  let k : Field := ⟨"k", .int64, true⟩
  let condition : Schema := ⟨[⟨"k", .boolean, true⟩]⟩
  ⟨"s", #[⟨0, "ts_0", .source, ⟨[k, ⟨"v", .int64, true⟩]⟩⟩,
    ⟨1, "ts_1", .projection 0 ["k"] false, ⟨[k]⟩⟩,
    ⟨2, "ts_2", .projection 0 ["v"] false, ⟨[⟨"v", .int64, true⟩]⟩⟩,
    ⟨3, "ts_3", .arithmetic 0 (.binary .add 1 2), ⟨[k]⟩⟩,
    ⟨4, "ts_4", .criterion 0 (.compare .lt 3 2), condition⟩,
    ⟨5, "ts_5", .criterion 0 (.not 4), condition⟩,
    ⟨6, "ts_6", .selection 0 5, ⟨[k, ⟨"v", .int64, true⟩]⟩⟩,
    ⟨7, "ts_7", .join 6 6 ["k"] ["k"] .inner ⟨[("k", "k"), ("v", "v_x")], [("v", "v_y")],
      ⟨[k, ⟨"v_x", .int64, true⟩, ⟨"v_y", .int64, true⟩]⟩⟩,
      ⟨[k, ⟨"v_x", .int64, true⟩, ⟨"v_y", .int64, true⟩]⟩⟩],
    #[[1, 2, 3, 4, 5, 6], [3], [3, 4], [4], [5], [6], [7], []]⟩

theorem constructed_joinedSelection : joinedSelection.Constructed :=
  .add (r := (7, joinedSelection)) (.add (.add (.add (.add (.add (.add (.add (.empty "s")
    (.source ⟨[⟨"k", .int64, true⟩, ⟨"v", .int64, true⟩]⟩) rfl)
    (.projection 0 ["k"] false) rfl) (.projection 0 ["v"] false) rfl) (.arith .add 1 2) rfl)
    (.compare .lt 3 2) rfl) (.logical .not 4 none) rfl) (.selection 0 5) rfl)
    (.join 6 6 ["k"] ["k"] .inner) rfl

/-- The condition is written out in the selection, with columns of the base table. The second of two equal
sides of a join is called differently. -/
theorem compound_scoped_joinedSelection : joinedSelection.Constructed ∧
    (∃ s, joinedSelection.compound 6 = .ok [s] ∧
      s.references = [("ts_0", "k"), ("ts_0", "v"), ("ts_0", "k"), ("ts_0", "v"), ("ts_0", "v")] ∧
        joinedSelection.Scopes s) ∧
    ∃ s, joinedSelection.compound 7 = .ok [s] ∧
      s.labels = [("ts_6", "ts_6"), ("ts_6_rhs", "ts_6")] ∧ joinedSelection.Scopes s := by
  obtain ⟨_, hselection, -, hs⟩ := @compound_scoped _ 6 _ constructed_joinedSelection rfl rfl
  obtain ⟨_, hjoin, -, hj⟩ := @compound_scoped _ 7 _ constructed_joinedSelection rfl rfl
  cases hselection
  cases hjoin
  exact ⟨constructed_joinedSelection, ⟨_, rfl, rfl, hs _ (List.mem_singleton_self _)⟩,
    ⟨_, rfl, rfl, hj _ (List.mem_singleton_self _)⟩⟩

end Graph
end LazyQuery
