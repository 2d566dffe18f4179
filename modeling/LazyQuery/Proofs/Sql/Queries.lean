import LazyQuery.Proofs.Sql.Answer
import LazyQuery.Proofs.Sql.Compile
import LazyQuery.Proofs.Sql.Statements

/-!
# Queries of portable nodes

The query of a portable node yields the rows of what the node denotes, if the tables of the store that it
reads hold the rows of what their nodes denote (`Graph.query_holds`). Named results come one after the other, and each of them is
the statement of a node over the ones before it: what is carried along is `Graph.Portrays`.

In the query of a portable node nothing is compared with a pattern, so that it is answered as it is
written.
-/

set_option autoImplicit false

namespace LazyQuery

open Sql

namespace Sql

/-! ## Names that are known -/

variable {isKnown isKnown' : String → Bool}

theorem readsOnly_mono {named : List (String × Compound)} {body : Compound}
    (h : readsOnly isKnown named body = true)
    (hk : ∀ p ∈ named, ∀ n ∈ p.2.names, isKnown n = true → isKnown' n = true)
    (hb : ∀ n ∈ body.names, isKnown n = true → isKnown' n = true) :
    readsOnly isKnown' named body = true := by
  induction named generalizing isKnown isKnown' with
  | nil => exact List.all_eq_true.2 fun n hn => hb n hn (List.all_eq_true.1 h n hn)
  | cons p rest ih =>
    obtain ⟨name, c⟩ := p
    rw [readsOnly, Bool.and_eq_true] at h ⊢
    refine ⟨List.all_eq_true.2 fun n hn => hk _ List.mem_cons_self n hn (List.all_eq_true.1 h.1 n hn),
      ih h.2 (fun p hp n hn hknown => ?_) fun n hn hknown => ?_⟩
    · rw [Bool.or_eq_true] at hknown ⊢
      exact hknown.imp_right (hk p (List.mem_cons_of_mem _ hp) n hn)
    · rw [Bool.or_eq_true] at hknown ⊢
      exact hknown.imp_right (hb n hn)

/-- What a query reads it also reads if no other names are known. -/
theorem readsOnly_sourceNames {q : Query} (h : readsOnly isKnown q.named q.body = true) :
    readsOnly (fun n => isKnown n && decide (n ∈ q.sourceNames)) q.named q.body = true := by
  refine readsOnly_mono h (fun p hp n hn hknown => ?_) fun n hn hknown => ?_
  · rw [hknown, Bool.true_and, decide_eq_true_eq, Query.sourceNames, List.mem_append]
    exact .inl (List.mem_flatMap.2 ⟨p, hp, hn⟩)
  · rw [hknown, Bool.true_and, decide_eq_true_eq, Query.sourceNames, List.mem_append]
    exact .inr hn

theorem knownAfter_of_mem {named : List (String × Compound)} {p : String × Compound} (h : p ∈ named)
    (isKnown : String → Bool) : knownAfter isKnown named p.1 = true := by
  induction named generalizing isKnown with
  | nil => cases h
  | cons p' rest ih =>
    rcases List.mem_cons.1 h with rfl | h
    · have hself : (sameName p.1 p.1 || isKnown p.1) = true := by rw [sameName_self, Bool.true_or]
      exact knownAfter_of_isKnown hself rest
    · exact ih h _

/-- A result that holds a table holds it also as a named result, if the columns are kept. -/
theorem Relation.Holds.asTable {r : Relation} {t : Table} {s : Schema} (h : r.Holds t s)
    (hk : s.IsKept) (plan : Plan) : (r.asTable plan).Holds t s := by
  have hnames : r.columns.map (·.name) = s.names := by
    have := h.headings
    rw [Schema.names]
    generalize r.columns = columns, s.fields = fields at this
    induction this with
    | nil => rfl
    | cons hf _ ih => rw [List.map_cons, List.map_cons, ih, hf.name]
  refine ⟨?_, h.rows, h.numbers⟩
  rw [Relation.asTable]
  dsimp only
  rw [hnames, hk.tableNames, Schema.names, List.zipWith_map_left]
  have := h.headings
  generalize r.columns = columns, s.fields = fields at this
  induction this with
  | nil => exact .nil
  | cons hf _ ih => exact .cons ⟨rfl, hf.suits, hf.computed⟩ ih

theorem Relation.Holds.breaksOff {r : Relation} {t : Table} {s : Schema} (h : r.Holds t s) :
    r.breaksOff = false := by
  rw [h.rows]
  rfl

end Sql

namespace Graph

variable {g : Graph} {base : BaseTables} {id d : NodeId} {n m : Node} {catalog : Catalog}
  {isKnown : String → Bool}

/-! ## Named results -/

/-- Of the tables that `id` hangs on, those that are known are there and hold the rows of what
they denote. -/
def Portrays (g : Graph) (base : BaseTables) (id : NodeId) (isKnown : String → Bool)
    (catalog : Catalog) : Prop :=
  ∀ ⦃d m⦄, g.DependsOn id d → g.node? d = some m → m.op.isTable = true → isKnown m.name = true →
    g.Held base catalog d

/-- The statement of a node reads what is known. -/
theorem Portrays.yields (h : g.Portrays base id isKnown catalog) (hg : g.WellFormed) (hb : g.Based base)
    (hn : g.node? d = some n) (hst : n.op.hasStatement = true) (ht : n.op.isTable = true)
    (hp : g.Portable base d) (hd : ∀ i ∈ n.op.inputs, g.DependsOn id i) {body : Compound}
    (hbody : g.compound d = .ok body) (hread : body.names.all isKnown = true) (asked : Bool) :
    ∃ t r, g.Represents base d n t ∧ evalCompound? catalog asked body = some r ∧ r.Holds t n.schema := by
  obtain ⟨body', hbody', hnames⟩ := compound_spec hg hn hst
  obtain rfl := Except.ok.inj (hbody.symm.trans hbody')
  obtain ⟨t, hden, body', r, hbody', hr, hholds⟩ := statement_holds hg hb hn hst ht hp asked
    fun i hi => by
      obtain ⟨m, hm, htable⟩ := (hg.linked hn).has_table hst hi
      refine h (hd i (Op.mem_inputs_of_mem_tables hi)) hm htable ?_
      rw [name_of_node? hg hm]
      rw [hnames, List.all_map, List.all_eq_true] at hread
      exact hread i hi
  obtain rfl := Except.ok.inj (hbody.symm.trans hbody')
  exact ⟨t, r, hden, hr, hholds⟩

/-- **One named result after the other holds the rows of what its node denotes.** -/
theorem Portrays.withNamed? (hg : g.WellFormed) (hb : g.Based base) (hp : g.Portable base id)
    {named : List (String × Compound)} (hnamed : g.Defines id named) {body : Compound}
    (hread : readsOnly isKnown named body = true) (h : g.Portrays base id isKnown catalog) :
    ∃ after, Sql.withNamed? catalog (fun _ => true) (fun _ before => before) named = some after ∧
      g.Portrays base id (knownAfter isKnown named) after ∧
      body.names.all (knownAfter isKnown named) = true := by
  induction named generalizing isKnown catalog with
  | nil => exact ⟨catalog, rfl, h, hread⟩
  | cons p rest ih =>
    obtain ⟨name, c⟩ := p
    obtain ⟨d, m, hd, hm, hst, ht, hname, hc⟩ := hnamed _ List.mem_cons_self
    obtain rfl : name = m.name := hname
    dsimp only at hc
    rw [readsOnly, Bool.and_eq_true] at hread
    have hportable := hp.dependsOn hd
    have hwithin : g.Portrays base id isKnown (catalog.within m.name) := h
    obtain ⟨t, r, hden, hr, hholds⟩ := hwithin.yields hg hb hm hst ht hportable
      (fun i hi => hd.step hm hi) hc hread.1 true
    have hnext : g.Portrays base id (fun n => sameName n m.name || isKnown n)
        (catalog.extend m.name (r.asTable catalog.plan)) := by
      intro d' m' hd' hm' ht' hknown
      dsimp only at hknown
      cases hsame : sameName m'.name m.name with
      | false =>
        rw [hsame, Bool.false_or] at hknown
        obtain ⟨m'', t', r', hm'', hden', hr', hholds'⟩ := h hd' hm' ht' hknown
        obtain rfl := Option.some.inj (hm'.symm.trans hm'')
        refine ⟨m', t', r', hm', hden', ?_, hholds'⟩
        dsimp only [Catalog.extend]
        rw [hsame]
        exact hr'
      | true =>
        rw [name_of_node? hg hm', name_of_node? hg hm, sameName_tableName] at hsame
        subst hsame
        obtain rfl := Option.some.inj (hm.symm.trans hm')
        refine ⟨m, t, r.asTable catalog.plan, hm, hden, ?_, hholds.asTable (hportable.node hm).kept _⟩
        dsimp only [Catalog.extend]
        rw [sameName_self, if_pos rfl]
    obtain ⟨after, hafter, hportrays, hall⟩ :=
      ih (fun p hp => hnamed p (List.mem_cons_of_mem _ hp)) hread.2 hnext
    refine ⟨after, ?_, hportrays, hall⟩
    rw [Sql.withNamed?, List.foldlM_cons]
    dsimp only
    rw [hr]
    exact hafter

/-- As it is written, the query yields the rows of what the node denotes. -/
theorem written_holds (hg : g.WellFormed) (hb : g.Based base) (hn : g.node? id = some n)
    (hst : n.op.hasStatement = true) (ht : n.op.isTable = true) (hp : g.Portable base id) {q : Query}
    (hbody : g.compound id = .ok q.body) (hnamed : g.Defines id q.named)
    (hread : readsOnly isKnown q.named q.body = true) (h : g.Portrays base id isKnown catalog) :
    ∃ t r, g.Represents base id n t ∧ q.evalAsWritten? catalog = some r ∧ r.Holds t n.schema := by
  obtain ⟨after, hafter, hportrays, hall⟩ := h.withNamed? hg hb hp hnamed hread
  obtain ⟨t, r, hden, hr, hholds⟩ := hportrays.yields hg hb hn hst ht hp (fun i hi => .input hn hi) hbody
    hall true
  refine ⟨t, r, hden, ?_, hholds⟩
  have hoff : (q.named.any fun p => (after p.1).any (·.breaksOff)) = false := by
    rw [List.any_eq_false]
    intro p hp
    obtain ⟨d, m, hd, hm, -, ht, hname, -⟩ := hnamed p hp
    obtain ⟨m', t', r', hm', -, hr', hholds'⟩ := hportrays hd hm ht
      (hname ▸ knownAfter_of_mem hp isKnown)
    obtain rfl := Option.some.inj (hm.symm.trans hm')
    rw [hname, hr', Option.any_some, hholds'.breaksOff]
    exact Bool.false_ne_true
  rw [Query.evalAsWritten?, hafter]
  change (evalCompound? after true q.body).bind _ = _
  rw [hr, Option.bind_some]
  dsimp only
  rw [hholds.breaksOff, hoff]
  rfl

/-! ## Patterns -/

theorem hasLongPattern_arith (op : ArithOp) {l r : Expr} (hl : l.hasLongPattern = false)
    (hr : r.hasLongPattern = false) : (op.expr l r).hasLongPattern = false := by
  cases op <;> simp [ArithOp.expr, Expr.hasLongPattern, hl, hr]

theorem hasLongPattern_unary (op : UnaryOp) {e : Expr} (he : e.hasLongPattern = false) :
    (op.expr e).hasLongPattern = false := by
  cases op <;> exact he

/-- The expression of a portable operand compares nothing with a pattern. -/
theorem expressionWithin_hasLongPattern {fuel : Nat} {a : NodeId} (hp : g.Portable base a) {e : Expr}
    (he : g.expressionWithin fuel a = .ok e) : e.hasLongPattern = false := by
  induction fuel generalizing a e with
  | zero =>
    obtain ⟨n, -, he⟩ := bind_eq_ok.1 he
    cases he
  | succ fuel ih =>
    obtain ⟨n, hn, he⟩ := bind_eq_ok.1 he
    replace hn := node_eq_ok.1 hn
    have operand {b : NodeId} (hb : b ∈ n.op.inputs) {x : Expr}
        (hx : g.expressionWithin fuel b = .ok x) : x.hasLongPattern = false :=
      ih (hp.input hn hb) hx
    have hportable := (hp.node hn).op
    obtain ⟨i, name, op, s⟩ := n
    dsimp only at he operand hportable
    cases op
    case constant =>
      cases he
      rfl
    case projection t columns distinct =>
      match columns, he with
      | [], he => cases he
      | [c], he =>
        obtain ⟨m, -, he⟩ := bind_eq_ok.1 he
        cases he
        rfl
      | _ :: _ :: _, he => cases he
    case criterion o c =>
      cases c <;> simp only [Op.inputs, Op.sources, Op.evalSources, Criterion.operands] at operand
      case like => cases hportable.1
      case compare | and | or =>
        obtain ⟨l, hl, he⟩ := bind_eq_ok.1 he
        obtain ⟨r, hr, he⟩ := bind_eq_ok.1 he
        cases he
        rw [Expr.hasLongPattern, operand (by simp) hl, operand (by simp) hr]
        rfl
      case isNull | not =>
        obtain ⟨x, hx, he⟩ := bind_eq_ok.1 he
        cases he
        change x.hasLongPattern = false
        exact operand (by simp) hx
    case arithmetic o a =>
      cases a <;> simp only [Op.inputs, Op.sources, Op.evalSources, Arithmetic.operands] at operand
      case binary op l r =>
        obtain ⟨x, hx, he⟩ := bind_eq_ok.1 he
        obtain ⟨y, hy, he⟩ := bind_eq_ok.1 he
        cases he
        exact hasLongPattern_arith op (operand (by simp) hx) (operand (by simp) hy)
      case unary op b =>
        obtain ⟨x, hx, he⟩ := bind_eq_ok.1 he
        cases he
        exact hasLongPattern_unary op (operand (by simp) hx)
    all_goals cases he

/-- What a statement over portable nodes is made of compares nothing with a pattern. -/
theorem IsPart.hasLongPattern {operands : List NodeId} {labels : List (String × String)} {e : Expr}
    (h : g.IsPart operands labels e) (hp : ∀ a ∈ operands, g.Portable base a) :
    e.hasLongPattern = false := by
  induction h with
  | literal | column => rfl
  | aggregate _ _ ih => exact ih
  | operand ha _ _ _ he => exact expressionWithin_hasLongPattern (hp _ ha) he

/-- The statement of a portable node compares nothing with a pattern. -/
theorem compound_hasLongPattern (hg : g.WellFormed) (hn : g.node? id = some n)
    (hp : g.Portable base id) {body : Compound} (hbody : g.compound id = .ok body) :
    ∀ s ∈ body, ∀ e ∈ s.exprs, e.hasLongPattern = false := by
  intro s hs e he
  have hpart := (compound_madeOf hg hn hbody s hs).parts e (List.mem_append_left _ he)
  exact hpart.hasLongPattern (List.forall_mem_cons.2
    ⟨hp, fun a ha => hp.input hn (Op.mem_inputs_of_mem_evalSources ha)⟩)

/-- **The query of a portable node yields the rows of what the node denotes**, if the tables that it reads
hold the rows of what their nodes denote. It does not matter which nodes have tables already. -/
theorem query_holds (hg : g.WellFormed) (hb : g.Based base) {v : View} (hn : g.node? id = some n)
    (hst : n.op.hasStatement = true) (ht : n.op.isTable = true) (hp : g.Portable base id) {q : Query}
    (hq : g.query id v = .ok q) (hread : readsOnly isKnown q.named q.body = true)
    (h : g.Portrays base id isKnown catalog) {r : Relation} (hr : q.eval? catalog = some r) :
    ∃ t, g.Represents base id n t ∧ r.Holds t n.schema := by
  obtain ⟨hbody, hnamed⟩ := defines_of_query hg hn hq
  have honly : g.Portrays base id (fun n => isKnown n && decide (n ∈ q.sourceNames))
      (catalog.only q.sourceNames) := by
    intro d m hd hm htable hknown
    rw [Bool.and_eq_true, decide_eq_true_eq] at hknown
    obtain ⟨m', t, r, hm', hden, hr, hholds⟩ := h hd hm htable hknown.1
    obtain rfl := Option.some.inj (hm.symm.trans hm')
    refine ⟨m, t, r, hm, hden, ?_, hholds⟩
    dsimp only [Catalog.only]
    rw [if_pos hknown.2, hr]
  obtain ⟨t, r', hden, hwritten, hholds⟩ := written_holds hg hb hn hst ht hp hbody hnamed
    (readsOnly_sourceNames hread) honly
  have hfree : q.hasLongPattern = false := by
    have compounds : ∀ c ∈ q.compounds, ∀ s ∈ c, ∀ e ∈ s.exprs, e.hasLongPattern = false := by
      intro c hc
      rcases List.mem_append.1 hc with hc | hc
      · obtain ⟨p, hp', rfl⟩ := List.mem_map.1 hc
        obtain ⟨d, m, hd, hm, -, -, -, hp'⟩ := hnamed p hp'
        exact compound_hasLongPattern hg hm (hp.dependsOn hd) hp'
      · obtain rfl := List.mem_singleton.1 hc
        exact compound_hasLongPattern hg hn hp hbody
    simpa [Query.hasLongPattern] using compounds
  rw [Query.eval?] at hr
  simp only [Option.bind_eq_bind, Option.bind_eq_some_iff] at hr
  obtain ⟨headings, -, layout, -, hr⟩ := hr
  rw [hfree, if_neg Bool.false_ne_true, hwritten] at hr
  obtain rfl : r' = r := Option.some.inj hr
  exact ⟨t, hden, hholds⟩

end Graph
end LazyQuery
