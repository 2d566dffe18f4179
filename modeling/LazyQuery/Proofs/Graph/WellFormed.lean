import LazyQuery.Graph.Build
import LazyQuery.Proofs.Outcome
import LazyQuery.Proofs.Table.Columns

/-!
# Well-formed graphs

What holds of every graph that the constructors build.

* `Op.Linked g op` says what the nodes are that `op` refers to: a projection is one of a table, the
  operands of a condition belong to its owner, an aggregation of a grouping works on the table that
  was grouped.
* `Op.HasSchema g s op` says how the schema of `op` follows from those of the nodes it works on: a
  projection has the fields of its columns, a selection those of its table.
* `Graph.WellFormed` says that every node has its place as number and name, refers to earlier nodes
  only, and is linked to them and has the schema that its operation asks for.
* `Graph.Extends g g'` says that `g'` has the nodes of `g` where they were. Links and schemas stay in
  it.
-/

set_option autoImplicit false

namespace LazyQuery

/-! ## What operations refer to -/

namespace Op

/-- All nodes that an operation refers to. -/
def inputs : Op → List NodeId
  | groupProjection group table _ _ => [group, table]
  | aggregator s _ input _ _ => [s, input]
  | op => op.sources ++ op.evalSources

/-- The nodes whose tables an operation works on: a grouping stands for the table it groups. -/
def tables : Op → List NodeId
  | aggregator _ _ input _ _ => [input]
  | op => op.sources

/-- The nodes whose results an evaluation asks for. -/
def reads (op : Op) : List NodeId := op.tables ++ op.evalSources

/-- Is the result of the operation a table that others can work on? -/
def isTable : Op → Bool
  | constant _ => false
  | op => !op.isContainer

theorem isTable_eq_not {op : Op} (h : ∀ v, op ≠ constant v) : op.isTable = !op.isContainer := by
  cases op <;> first | rfl | exact absurd rfl (h _)

theorem isContainer_of_isTable {op : Op} (h : op.isTable = true) : op.isContainer = false := by
  cases op <;> simp_all [isTable, isContainer]

/-- An operation with a result of its own that is no base table is written as a statement, or can be
evaluated in memory only. -/
theorem hasStatement_or_isFallback {op : Op} (hs : op.isSource = false)
    (hc : op.isContainer = false) : op.hasStatement = true ∨ op.isFallback = true := by
  cases op with
  | source => cases hs
  | groupBy | groupProjection => cases hc
  | describe | apply => exact .inr rfl
  | _ => exact .inl rfl

theorem isFallback_of_hasStatement {op : Op} (h : op.hasStatement = true) : op.isFallback = false := by
  cases op with
  | describe | apply => cases h
  | _ => rfl

theorem isContainer_of_hasStatement {op : Op} (h : op.hasStatement = true) : op.isContainer = false := by
  cases op with
  | groupBy | groupProjection => cases h
  | _ => rfl

theorem isSource_of_hasStatement {op : Op} (h : op.hasStatement = true) : op.isSource = false := by
  cases op with
  | source => cases h
  | _ => rfl

/-- Can the operation be an operand of an expression over the rows of `owner`? -/
def IsOperandOf (owner : NodeId) : Op → Prop
  | constant _ => True
  | projection t [_] _ => t = owner
  | criterion o _ | arithmetic o _ => o = owner
  | _ => False

/-- Can the operation select rows of `owner`? -/
def IsPredicateOf (owner : NodeId) : Op → Prop
  | projection t [_] _ => t = owner
  | criterion o _ => o = owner
  | _ => False

/-- Is the operation a grouping of `table` by `keys`? -/
def IsGroupingOf (table : NodeId) (keys : List String) : Op → Prop
  | groupBy t ks | groupProjection _ t ks _ => t = table ∧ ks = keys
  | _ => False

theorem mem_inputs_of_mem_sources {op : Op} {d : NodeId} (h : d ∈ op.sources) : d ∈ op.inputs := by
  cases op <;> simp_all [sources, inputs, evalSources]

theorem mem_inputs_of_mem_evalSources {op : Op} {d : NodeId} (h : d ∈ op.evalSources) :
    d ∈ op.inputs := by
  cases op <;> simp_all [evalSources, inputs]

theorem mem_inputs_of_mem_tables {op : Op} {d : NodeId} (h : d ∈ op.tables) : d ∈ op.inputs := by
  cases op <;> simp_all [tables, inputs, sources, evalSources]

theorem mem_inputs_of_mem_reads {op : Op} {d : NodeId} (h : d ∈ op.reads) : d ∈ op.inputs :=
  (List.mem_append.1 h).elim mem_inputs_of_mem_tables mem_inputs_of_mem_evalSources

theorem IsOperandOf.isContainer {op : Op} {owner : NodeId} (h : op.IsOperandOf owner) :
    op.isContainer = false := by
  unfold IsOperandOf at h
  split at h <;> first | rfl | cases h

theorem IsPredicateOf.isOperandOf {op : Op} {owner : NodeId} (h : op.IsPredicateOf owner) :
    op.IsOperandOf owner := by
  unfold IsPredicateOf at h
  unfold IsOperandOf
  split at h <;> simp_all

end Op

namespace Graph

/-! ## Larger graphs -/

/-- Has the graph a node for which `P` holds at the given number? -/
def Has (g : Graph) (P : Op → Prop) (id : NodeId) : Prop := ∃ n, g.node? id = some n ∧ P n.op

/-- The graph `g'` has the nodes of `g`, and possibly more after them. -/
structure Extends (g g' : Graph) : Prop where
  tag : g'.tag = g.tag
  node : ∀ {i n}, g.node? i = some n → g'.node? i = some n

theorem Extends.refl (g : Graph) : g.Extends g := ⟨rfl, fun h => h⟩

theorem Extends.trans {g g' g'' : Graph} (h : g.Extends g') (h' : g'.Extends g'') :
    g.Extends g'' :=
  ⟨h'.tag.trans h.tag, fun hn => h'.node (h.node hn)⟩

theorem Extends.tableName {g g' : Graph} (h : g.Extends g') (i : NodeId) :
    g'.tableName i = g.tableName i := by
  rw [Graph.tableName, h.tag]
  rfl

theorem Extends.has {g g' : Graph} (h : g.Extends g') {P : Op → Prop} {id : NodeId}
    (hp : g.Has P id) : g'.Has P id := by
  obtain ⟨n, hn, hp⟩ := hp
  exact ⟨n, h.node hn, hp⟩

theorem Has.mono {g : Graph} {P P' : Op → Prop} {id : NodeId} (h : g.Has P id)
    (hP : ∀ op, P op → P' op) : g.Has P' id := by
  obtain ⟨n, hn, hp⟩ := h
  exact ⟨n, hn, hP _ hp⟩

theorem Has.of_node? {g : Graph} {P : Op → Prop} {id : NodeId} {n : Node} (h : g.Has P id)
    (hn : g.node? id = some n) : P n.op := by
  obtain ⟨m, hm, hp⟩ := h
  rw [hn, Option.some.injEq] at hm
  exact hm ▸ hp

theorem lt_size_of_node? {g : Graph} {i : NodeId} {n : Node} (h : g.node? i = some n) :
    i < g.size := by
  rw [node?, Array.getElem?_eq_some_iff] at h
  exact h.1

theorem node?_isSome {g : Graph} {i : NodeId} (h : i < g.size) : ∃ n, g.node? i = some n :=
  ⟨_, Array.getElem?_eq_getElem h⟩

theorem Has.lt_size {g : Graph} {P : Op → Prop} {id : NodeId} (h : g.Has P id) : id < g.size := by
  obtain ⟨n, hn, -⟩ := h
  exact lt_size_of_node? hn

theorem node_eq_ok {g : Graph} {i : NodeId} {n : Node} :
    g.node i = .ok n ↔ g.node? i = some n := by
  rw [node]
  cases g.node? i <;> simp

theorem Extends.size_le {g g' : Graph} (h : g.Extends g') : g.size ≤ g'.size := by
  refine Nat.le_of_not_lt fun hlt => ?_
  obtain ⟨n, hn⟩ := node?_isSome hlt
  exact Nat.lt_irrefl _ (lt_size_of_node? (h.node hn))

/-! ## Links -/

end Graph

/-- What must hold of the nodes that an operation refers to. -/
def Op.Linked (g : Graph) : Op → Prop
  | source | constant _ => True
  | criterion owner c =>
    g.Has (·.isTable) owner ∧ ∀ a ∈ c.operands, g.Has (·.IsOperandOf owner) a
  | arithmetic owner a =>
    g.Has (·.isTable) owner ∧ ∀ b ∈ a.operands, g.Has (·.IsOperandOf owner) b
  | projection t _ _ | orderBy t _ | limit t _ | groupBy t _ | rename t _ | describe t
  | apply t _ _ => g.Has (·.isTable) t
  | selection t c => g.Has (·.isTable) t ∧ g.Has (·.IsPredicateOf t) c
  | join l r _ _ _ _ => g.Has (·.isTable) l ∧ g.Has (·.isTable) r
  | union inputs => inputs ≠ [] ∧ ∀ i ∈ inputs, g.Has (·.isTable) i
  | groupProjection group t keys _ =>
    g.Has (·.isTable) t ∧ g.Has (fun op => op = .groupBy t keys) group
  | aggregator s _ input keys _ =>
    g.Has (·.isTable) input ∧ (s = input ∧ keys = [] ∨ g.Has (·.IsGroupingOf input keys) s)
  | assign t _ v => g.Has (·.isTable) t ∧ g.Has (·.IsOperandOf t) v

namespace Graph

theorem Extends.linked {g g' : Graph} (h : g.Extends g') {op : Op} (hl : op.Linked g) :
    op.Linked g' := by
  cases op <;> simp only [Op.Linked] at hl ⊢
  case criterion => exact ⟨h.has hl.1, fun a ha => h.has (hl.2 a ha)⟩
  case arithmetic => exact ⟨h.has hl.1, fun a ha => h.has (hl.2 a ha)⟩
  case union => exact ⟨hl.1, fun i hi => h.has (hl.2 i hi)⟩
  case aggregator => exact ⟨h.has hl.1, hl.2.imp_right h.has⟩
  case selection | join | groupProjection | assign => exact ⟨h.has hl.1, h.has hl.2⟩
  case projection | orderBy | limit | groupBy | rename | describe | apply => exact h.has hl

end Graph

/-- The nodes that a linked operation refers to are there. -/
theorem Op.Linked.input_lt {g : Graph} {op : Op} (h : op.Linked g) {d : NodeId}
    (hd : d ∈ op.inputs) : d < g.size := by
  cases op <;> simp only [Op.Linked, Op.inputs, Op.sources, Op.evalSources, List.mem_append,
    List.mem_cons, List.not_mem_nil, or_false] at h hd
  case criterion => exact hd.elim (fun e => e ▸ h.1.lt_size) fun hd => (h.2 d hd).lt_size
  case arithmetic => exact hd.elim (fun e => e ▸ h.1.lt_size) fun hd => (h.2 d hd).lt_size
  case union => exact (h.2 d hd).lt_size
  case aggregator =>
    rcases hd with rfl | rfl
    · exact h.2.elim (fun e => e.1 ▸ h.1.lt_size) fun e => e.lt_size
    · exact h.1.lt_size
  case groupProjection => exact hd.elim (fun e => e ▸ h.2.lt_size) fun e => e ▸ h.1.lt_size
  case selection | join | assign =>
    exact hd.elim (fun e => e ▸ h.1.lt_size) fun e => e ▸ h.2.lt_size
  case projection | orderBy | limit | groupBy | rename | describe | apply => exact hd ▸ h.lt_size

/-- The nodes that a statement reads are tables. -/
theorem Op.Linked.has_table {g : Graph} {op : Op} (h : op.Linked g) (hs : op.hasStatement = true)
    {d : NodeId} (hd : d ∈ op.tables) : g.Has (·.isTable) d := by
  cases op <;> simp only [Op.Linked, Op.tables, Op.sources, List.mem_cons, List.not_mem_nil,
    or_false] at h hd
  case groupBy | groupProjection | describe | apply => cases hs
  case union => exact h.2 d hd
  case join => exact hd.elim (fun e => e ▸ h.1) fun e => e ▸ h.2
  case criterion | arithmetic | selection | aggregator | assign => exact hd ▸ h.1
  case projection | orderBy | limit | rename => exact hd ▸ h

/-- An evaluation asks for the results of no groupings. -/
theorem Op.Linked.has_result {g : Graph} {op : Op} (h : op.Linked g) (hc : op.isContainer = false)
    {d : NodeId} (hd : d ∈ op.reads) : g.Has (·.isContainer = false) d := by
  have table {i : NodeId} (hi : g.Has (·.isTable) i) : g.Has (·.isContainer = false) i :=
    hi.mono fun _ => isContainer_of_isTable
  have operand {i owner : NodeId} (hi : g.Has (·.IsOperandOf owner) i) :
      g.Has (·.isContainer = false) i :=
    hi.mono fun _ => IsOperandOf.isContainer
  cases op <;> simp only [Op.Linked, Op.reads, Op.tables, Op.sources, Op.evalSources,
    List.append_nil, List.mem_append, List.mem_cons, List.not_mem_nil, or_false] at h hd
  case groupBy | groupProjection => cases hc
  case criterion | arithmetic => exact hd.elim (fun e => e ▸ table h.1) fun hd => operand (h.2 d hd)
  case selection =>
    exact hd.elim (fun e => e ▸ table h.1) fun e => e ▸ operand (h.2.mono fun _ h => h.isOperandOf)
  case assign => exact hd.elim (fun e => e ▸ table h.1) fun e => e ▸ operand h.2
  case join => exact hd.elim (fun e => e ▸ table h.1) fun e => e ▸ table h.2
  case union => exact table (h.2 d hd)
  case aggregator => exact hd ▸ table h.1
  case projection | orderBy | limit | rename | describe | apply => exact hd ▸ table h

/-- What an operation needs wherever it is done is a table or a grouping. -/
theorem Op.Linked.source_ne_constant {g : Graph} {op : Op} (h : op.Linked g) {d : NodeId}
    (hd : d ∈ op.sources) : g.Has (fun op => ∀ v, op ≠ .constant v) d := by
  have table {i : NodeId} (hi : g.Has (·.isTable) i) : g.Has (fun op => ∀ v, op ≠ .constant v) i :=
    hi.mono fun op hop v h => by
      subst h
      cases hop
  cases op <;> simp only [Op.Linked, Op.sources, List.mem_cons, List.not_mem_nil, or_false] at h hd
  case criterion | arithmetic | selection | assign => exact hd ▸ table h.1
  case projection | orderBy | limit | groupBy | rename | describe | apply => exact hd ▸ table h
  case join => exact hd.elim (fun e => e ▸ table h.1) fun e => e ▸ table h.2
  case union => exact table (h.2 d hd)
  case groupProjection =>
    exact hd ▸ h.2.mono fun op hop v hv => by
      rw [hop] at hv
      cases hv
  case aggregator =>
    subst hd
    rcases h.2 with ⟨rfl, -⟩ | hgroup
    · exact table h.1
    · exact hgroup.mono fun op hop v hv => by
        subst hv
        cases hop

/-! ## Schemas -/

/-- The schema of a node. -/
def Graph.schema? (g : Graph) (id : NodeId) : Option Schema := (g.node? id).map (·.schema)

/-- Is the operation a condition? -/
def Op.IsCriterion : Op → Prop
  | criterion _ _ => True
  | _ => False

/-- What a condition asks of its operands: types whose values can be compared, or conditions. -/
def Criterion.Typed (g : Graph) : Criterion → Prop
  | compare _ l r =>
    ∃ f f', g.operandField l = .ok f ∧ g.operandField r = .ok f' ∧
      f.type.comparableWith f'.type = true
  | like _ _ | isNull _ => True
  | and l r | or l r => g.Has (·.IsCriterion) l ∧ g.Has (·.IsCriterion) r
  | not a => g.Has (·.IsCriterion) a

/-- The type of an arithmetic expression follows from those of its operands. -/
def Arithmetic.HasType (g : Graph) (type : DataType) : Arithmetic → Prop
  | binary op l r =>
    ∃ t u, g.numericOperand l = .ok t ∧ g.numericOperand r = .ok u ∧ type = op.resultType t u
  | unary op a => ∃ t, g.numericOperand a = .ok t ∧ type = op.resultType t

/-- How the schema of an operation follows from those of the nodes that it works on. -/
def Op.HasSchema (g : Graph) (s : Schema) : Op → Prop
  | source => firstRepeated [] s.names = none
  | constant v => s = ⟨[⟨Graph.constantColumn, v.dataType, v.isNull⟩]⟩
  | criterion _ c => (∃ name, s = ⟨[⟨name, .boolean, true⟩]⟩) ∧ c.Typed g
  | arithmetic _ a => ∃ name type, s = ⟨[⟨name, type, true⟩]⟩ ∧ a.HasType g type
  | projection t columns _ =>
    columns ≠ [] ∧ columns.Nodup ∧ ∃ i, g.schema? t = some i ∧ i.project columns = .ok s
  | selection t _ | limit t _ => g.schema? t = some s
  | join l r leftOn rightOn how layout =>
    s = layout.schema ∧ ∃ i j, g.schema? l = some i ∧ g.schema? r = some j ∧
      JoinLayout.make i j leftOn rightOn (how == .left) = .ok layout
  | union inputs =>
    ∃ first rest i, inputs = first :: rest ∧ g.schema? first = some i ∧
      rest.foldlM g.widenBy i = .ok s
  | orderBy t keys => keys ≠ [] ∧ g.schema? t = some s ∧ s.require (keys.map (·.1)) = .ok ()
  | groupBy t keys => g.schema? t = some s ∧ s.require keys = .ok ()
  | groupProjection group _ keys columns =>
    ∃ i, g.schema? group = some i ∧
      i.project (keys ++ columns.filter fun c => !keys.contains c) = .ok s
  | aggregator _ func input keys columns =>
    columns ≠ [] ∧ ∃ i keyFields fields, g.schema? input = some i ∧ keys.mapM (Graph.keyField i) = .ok keyFields ∧
      columns.mapM (Graph.aggregateField i func) = .ok fields ∧ s = ⟨keyFields ++ fields⟩
  | rename t mapping =>
    firstRepeated [] s.names = none ∧ ∃ i, g.schema? t = some i ∧
      i.require (mapping.map (·.1)) = .ok () ∧ s = i.renamed mapping
  | assign t column value =>
    ∃ i f, g.schema? t = some i ∧ g.operandField value = .ok f ∧ s = i.put { f with name := column }
  | describe t => ∃ i, g.schema? t = some i ∧ s = Describe.schema i
  | apply _ _ _ => s.fields ≠ [] ∧ firstRepeated [] s.names = none

namespace Graph

theorem schema?_eq_some {g : Graph} {i : NodeId} {n : Node} (h : g.node? i = some n) :
    g.schema? i = some n.schema := by
  rw [schema?, h]
  rfl

theorem schema_eq {g : Graph} {i : NodeId} {s : Schema} {n : Node} (hs : g.schema? i = some s)
    (hn : g.node? i = some n) : n.schema = s :=
  Option.some.inj ((schema?_eq_some hn).symm.trans hs)

namespace Extends

variable {g g' : Graph}

theorem schema? (h : g.Extends g') {i : NodeId} {s : Schema} (hs : g.schema? i = some s) :
    g'.schema? i = some s := by
  obtain ⟨n, hn, rfl⟩ := Option.map_eq_some_iff.1 hs
  exact schema?_eq_some (h.node hn)

theorem widenBy (h : g.Extends g') {s s' : Schema} {ids : List NodeId}
    (hs : ids.foldlM g.widenBy s = .ok s') : ids.foldlM g'.widenBy s = .ok s' := by
  induction ids generalizing s with
  | nil => exact hs
  | cons i rest ih =>
    rw [List.foldlM_cons, bind_eq_ok] at hs ⊢
    obtain ⟨u, hu, hs⟩ := hs
    refine ⟨u, ?_, ih hs⟩
    simp only [Graph.widenBy, table, bind_eq_ok, node_eq_ok] at hu ⊢
    obtain ⟨m, ⟨n, hn, hm⟩, hu⟩ := hu
    exact ⟨m, ⟨n, h.node hn, hm⟩, hu⟩

theorem operandField (h : g.Extends g') {i : NodeId} {f : Field} (hf : g.operandField i = .ok f) :
    g'.operandField i = .ok f := by
  simp only [Graph.operandField, bind_eq_ok, node_eq_ok] at hf ⊢
  obtain ⟨n, hn, hf⟩ := hf
  exact ⟨n, h.node hn, hf⟩

theorem numericOperand (h : g.Extends g') {i : NodeId} {t : DataType}
    (ht : g.numericOperand i = .ok t) : g'.numericOperand i = .ok t := by
  simp only [Graph.numericOperand, bind_eq_ok] at ht ⊢
  obtain ⟨f, hf, ht⟩ := ht
  exact ⟨f, h.operandField hf, ht⟩

theorem typed (h : g.Extends g') {c : Criterion} (hc : c.Typed g) : c.Typed g' := by
  cases c <;> simp only [Criterion.Typed] at hc ⊢
  case compare =>
    obtain ⟨f, f', hf, hf', hcomp⟩ := hc
    exact ⟨f, f', h.operandField hf, h.operandField hf', hcomp⟩
  case and | or => exact ⟨h.has hc.1, h.has hc.2⟩
  case not => exact h.has hc

theorem hasType (h : g.Extends g') {a : Arithmetic} {type : DataType} (ha : a.HasType g type) :
    a.HasType g' type := by
  cases a <;> simp only [Arithmetic.HasType] at ha ⊢
  case binary =>
    obtain ⟨t, u, ht, hu, htype⟩ := ha
    exact ⟨t, u, h.numericOperand ht, h.numericOperand hu, htype⟩
  case unary =>
    obtain ⟨t, ht, htype⟩ := ha
    exact ⟨t, h.numericOperand ht, htype⟩

theorem hasSchema (h : g.Extends g') {op : Op} {s : Schema} (hs : op.HasSchema g s) :
    op.HasSchema g' s := by
  cases op <;> simp only [Op.HasSchema] at hs ⊢
  case source | constant | apply => exact hs
  case criterion => exact ⟨hs.1, h.typed hs.2⟩
  case arithmetic =>
    obtain ⟨name, type, hschema, htype⟩ := hs
    exact ⟨name, type, hschema, h.hasType htype⟩
  case selection | limit => exact h.schema? hs
  case orderBy => exact ⟨hs.1, h.schema? hs.2.1, hs.2.2⟩
  case groupBy => exact ⟨h.schema? hs.1, hs.2⟩
  case groupProjection | describe => exact hs.imp fun _ hs => ⟨h.schema? hs.1, hs.2⟩
  case projection => exact ⟨hs.1, hs.2.1, hs.2.2.imp fun _ hs => ⟨h.schema? hs.1, hs.2⟩⟩
  case rename => exact ⟨hs.1, hs.2.imp fun _ hs => ⟨h.schema? hs.1, hs.2⟩⟩
  case join =>
    obtain ⟨hlayout, i, j, hi, hj, hmake⟩ := hs
    exact ⟨hlayout, i, j, h.schema? hi, h.schema? hj, hmake⟩
  case union =>
    obtain ⟨first, rest, i, hinputs, hi, hwiden⟩ := hs
    exact ⟨first, rest, i, hinputs, h.schema? hi, h.widenBy hwiden⟩
  case aggregator =>
    obtain ⟨hne, i, keyFields, fields, hi, hfields⟩ := hs
    exact ⟨hne, i, keyFields, fields, h.schema? hi, hfields⟩
  case assign =>
    obtain ⟨i, f, hi, hf, hput⟩ := hs
    exact ⟨i, f, h.schema? hi, h.operandField hf, hput⟩

end Extends

/-! ## Well-formed graphs -/

/-- Every node has its place as number and name, is linked to earlier nodes, and has the schema that
follows from theirs. -/
structure WellFormed (g : Graph) : Prop where
  id_eq : ∀ {i n}, g.node? i = some n → n.id = i
  name_eq : ∀ {i n}, g.node? i = some n → n.name = g.tableName i
  input_lt : ∀ {i n}, g.node? i = some n → ∀ d ∈ n.op.inputs, d < i
  linked : ∀ {i n}, g.node? i = some n → n.op.Linked g
  hasSchema : ∀ {i n}, g.node? i = some n → n.op.HasSchema g n.schema

theorem wellFormed_empty (tag : String) : (empty tag).WellFormed := by
  constructor <;> intro i n h <;> simp [empty, node?] at h

theorem WellFormed.dep_lt {g : Graph} (hg : g.WellFormed) {i : NodeId} {n : Node}
    (h : g.node? i = some n) {b : Backend} {d : NodeId} (hd : d ∈ n.deps b) : d < i := by
  cases b with
  | inMemory =>
    rcases List.mem_append.1 hd with hd | hd
    · exact hg.input_lt h d (Op.mem_inputs_of_mem_sources hd)
    · exact hg.input_lt h d (Op.mem_inputs_of_mem_evalSources hd)
  | relational => exact hg.input_lt h d (Op.mem_inputs_of_mem_sources hd)

theorem nodes_push (g : Graph) (op : Op) (schema : Schema) :
    (g.push op schema).2.nodes = g.nodes.push ⟨g.size, g.tableName g.size, op, schema⟩ := rfl

theorem size_push (g : Graph) (op : Op) (schema : Schema) :
    (g.push op schema).2.size = g.size + 1 := by
  rw [size, nodes_push, Array.size_push]
  rfl

theorem node?_push {g : Graph} {op : Op} {schema : Schema} {i : NodeId} {n : Node} :
    (g.push op schema).2.node? i = some n ↔
      g.node? i = some n ∨ i = g.size ∧ n = ⟨g.size, g.tableName g.size, op, schema⟩ := by
  rw [node?, nodes_push, Array.getElem?_push, node?]
  by_cases h : i = g.nodes.size
  · subst h
    simp [size, eq_comm]
  · rw [if_neg h]
    simp [size, h]

theorem extends_push (g : Graph) (op : Op) (schema : Schema) : g.Extends (g.push op schema).2 :=
  ⟨rfl, fun h => node?_push.2 (.inl h)⟩

theorem WellFormed.push {g : Graph} (hg : g.WellFormed) {op : Op} {schema : Schema}
    (h : op.Linked g) (hs : op.HasSchema g schema) : (g.push op schema).2.WellFormed where
  id_eq := by
    intro i n hn
    rcases node?_push.1 hn with hn | ⟨rfl, rfl⟩
    · exact hg.id_eq hn
    · rfl
  name_eq := by
    intro i n hn
    rcases node?_push.1 hn with hn | ⟨rfl, rfl⟩
    · exact hg.name_eq hn
    · rfl
  input_lt := by
    intro i n hn
    rcases node?_push.1 hn with hn | ⟨rfl, rfl⟩
    · exact hg.input_lt hn
    · exact fun d hd => h.input_lt hd
  linked := by
    intro i n hn
    rcases node?_push.1 hn with hn | ⟨rfl, rfl⟩
    · exact (extends_push g op schema).linked (hg.linked hn)
    · exact (extends_push g op schema).linked h
  hasSchema := by
    intro i n hn
    rcases node?_push.1 hn with hn | ⟨rfl, rfl⟩
    · exact (extends_push g op schema).hasSchema (hg.hasSchema hn)
    · exact (extends_push g op schema).hasSchema hs

end Graph
end LazyQuery
