import LazyQuery.Proofs.Engine.Evaluations
import LazyQuery.Proofs.Graph.Construction
import LazyQuery.Proofs.Table.DeclaredAggregates

/-!
# Results as their nodes declare them

What is read back from the store is given the types that its node declares. An evaluation in memory
does this for supplied functions only, and relies on the operators for the rest: of inputs that are as
declared they yield results that are. Two operators do not.

* A union widens the types of its columns, but takes over the cells as they are, so that a column of
  integers can hold truth values.
* The sum or product of no value is an integer, also where a float is declared.

`Graph.NeedsNoConversion` says that neither happens, and `evaluate_declared_iff` that nothing else can.
-/

set_option autoImplicit false

namespace LazyQuery

/-- The result, as a table, has the columns of the node, and their types change no cell. -/
def Node.Declares (n : Node) (w : Result) : Prop :=
  ∃ t, w.toTable n.columns = .ok t ∧ t.IsDeclared n.schema

/-- The row of a table, as a value or a series, makes the table again. -/
theorem Result.toTable_collapse_row {t : Table} (ht : t.Valid) (hne : t.columns ≠ [])
    (hv : ∀ c ∈ t.columns, ∃ v, c.values = [v]) : (Result.collapse t).toTable t.names = .ok t := by
  have single {c : Column} (hc : c ∈ t.columns) : [c.values.getLastD .null] = c.values := by
    obtain ⟨v, hv⟩ := hv c hc
    rw [hv]
    rfl
  have built : Table.build t.columns = .ok t := Table.build_eq_ok.2 ⟨rfl, ht⟩
  obtain ⟨columns⟩ := t
  cases columns with
  | nil => exact absurd rfl hne
  | cons c rest =>
    have hrows : (Table.mk (c :: rest)).rowCount = 1 := by
      obtain ⟨v, hv⟩ := hv c List.mem_cons_self
      exact congrArg List.length hv
    rw [Result.collapse, if_neg (by simp [hrows])]
    cases rest with
    | nil =>
      change Table.build [⟨c.name, [c.values.getLastD .null]⟩] = _
      rw [single List.mem_cons_self]
      exact built
    | cons d rest =>
      change Table.build (List.map _ (List.map _ (c :: d :: rest))) = _
      rw [List.map_map, map_eq_self_iff.2 fun e he => ?_]
      · exact built
      · rw [Function.comp]
        exact congrArg (Column.mk e.name) (single he)

/-- The row of aggregates of a table is shown as a table again. -/
theorem Table.toTable_collapse_aggregates {t u : Table} {func : AggFunc} {names : List String}
    (hu : t.aggregateTable func names = .ok u) (hne : names ≠ []) :
    (Result.collapse u).toTable u.names = .ok u := by
  obtain ⟨hvalid, hvalues⟩ := values_aggregateTable hu
  refine Result.toTable_collapse_row hvalid ?_ hvalues
  intro hnil
  have hlen := (aggregateTable_spec hu).2.length_eq
  rw [hnil] at hlen
  exact hne (List.length_eq_zero_iff.1 hlen)

namespace Graph

variable {g : Graph} {fetch : Fetch} {d id : NodeId} {s : Schema} {t : Table}

/-- Whatever is fetched of a node is as the node declares it. -/
def FetchesDeclared (g : Graph) (fetch : Fetch) (d : NodeId) : Prop :=
  ∀ m w, g.node? d = some m → fetch d = .ok w → m.Declares w

/-- A node takes over no cell that its types would change, and sums no floats where there are none. -/
def NeedsNoConversion (g : Graph) (fetch : Fetch) (n : Node) : Prop :=
  match n.op with
  | .union inputs => ∀ d ∈ inputs, ∀ t, g.inputTable fetch d = .ok t → t.coerce n.schema = t
  | .aggregator _ func input keys columns =>
    ∀ t, g.inputTable fetch input = .ok t → t.SumsSomething func keys columns n.schema
  | _ => True

/-! ## Inputs -/

/-- An input as a table is as the input declares it. -/
theorem FetchesDeclared.table (h : g.FetchesDeclared fetch d) (ht : g.inputTable fetch d = .ok t)
    (hs : g.schema? d = some s) : t.IsDeclared s := by
  obtain ⟨m, w, hm, hw, ht⟩ := inputTable_eq_ok.1 ht
  obtain ⟨u, hu, hdecl⟩ := h m w hm hw
  obtain rfl := Except.ok.inj (ht.symm.trans hu)
  exact schema_eq hs hm ▸ hdecl

/-- The values of an operand may stand where its field says, if a law lets those of its table stand in
their columns and a constant in a column of its own. -/
theorem operandValues_obey {law : CellLaw} (hc : ∀ v : Scalar, law v.dataType v.isNull v)
    (hg : g.WellFormed)
    (h : ∀ t s, g.inputTable fetch d = .ok t → g.schema? d = some s → t.Obeys law s) {rows : Nat}
    {values : List Scalar} (hv : g.operandValues fetch rows d = .ok values) {f : Field}
    (hf : g.operandField d = .ok f) : ∀ v ∈ values, law f.type f.nullable v := by
  obtain ⟨n, hn, hv⟩ := bind_eq_ok.1 hv
  have hn := liftNode_eq_ok.1 hn
  rw [operandField, node_eq_ok.2 hn, ok_bind] at hf
  have hschema := hg.hasSchema hn
  split at hv
  · rename_i c hop
    rw [hop, Op.HasSchema] at hschema
    rw [hschema] at hf
    obtain rfl := Except.ok.inj hf
    obtain rfl := Except.ok.inj hv
    intro v hmem
    obtain rfl := (List.mem_replicate.1 hmem).2
    exact hc v
  · obtain ⟨t, ht, hv⟩ := bind_eq_ok.1 hv
    have hcolumns := (h t n.schema ht (schema?_eq_some hn)).columns
    split at hv
    · cases hv
    · rename_i c rest htable
      rw [htable] at hcolumns
      split at hf
      · rename_i f' fields hfields
        obtain rfl := Except.ok.inj hf
        rw [hfields] at hcolumns
        cases hcolumns with
        | cons hc _ =>
          split at hv
          · obtain rfl := Except.ok.inj hv
            exact hc.cells
          · cases hv
      · cases hf

/-- The values of an operand are as its field declares them. -/
theorem FetchesDeclared.operand (hg : g.WellFormed) (h : g.FetchesDeclared fetch d) {rows : Nat}
    {values : List Scalar} (hv : g.operandValues fetch rows d = .ok values) {f : Field}
    (hf : g.operandField d = .ok f) : ∀ v ∈ values, v.coerce f.type = v :=
  operandValues_obey Scalar.coerce_dataType hg
    (fun _ _ ht hs => Table.isDeclared_iff_obeys.1 (h.table ht hs)) hv hf

/-! ## Expressions -/

/-- A column of one name as a table. -/
theorem expressionTable_declared {n : Node} {name : String} {type : DataType} {nullable : Bool}
    (hs : n.schema = ⟨[⟨name, type, nullable⟩]⟩) {values : List Scalar}
    (hv : ∀ v ∈ values, v.coerce type = v) {w : Result} (hw : n.expressionTable values = .ok w) :
    n.Declares w := by
  rw [Node.expressionTable, Node.columns, hs] at hw
  obtain rfl := Except.ok.inj hw
  refine ⟨_, rfl, hs ▸ Table.isDeclared_of_columns (.cons ⟨rfl, hv⟩ .nil) ?_⟩
  exact List.nodup_singleton _

/-- Conditions yield truth values. -/
theorem criterion_declared {operand : NodeId → Except EngineError (List Scalar)} {c : Criterion}
    {values : List Scalar} (h : c.values operand = .ok values) :
    ∀ v ∈ values, v.coerce .boolean = v := by
  have combined {f : Scalar → Scalar → Scalar} (hf : ∀ x y, (f x y).coerce .boolean = f x y)
      (a b : List Scalar) : ∀ v ∈ List.zipWith f a b, v.coerce .boolean = v := by
    intro v hv
    obtain ⟨i, hi, rfl⟩ := List.getElem_of_mem hv
    rw [List.getElem_zipWith]
    exact hf _ _
  cases c with
  | compare op l r =>
    obtain ⟨a, -, h⟩ := bind_eq_ok.1 h
    obtain ⟨b, -, h⟩ := bind_eq_ok.1 h
    obtain ⟨-, -, h⟩ := bind_eq_ok.1 (liftFrame_eq_ok.1 h)
    obtain rfl := Except.ok.inj h
    exact combined (Elementwise.compareCells_declared op) a b
  | and l r | or l r =>
    obtain ⟨a, -, h⟩ := bind_eq_ok.1 h
    obtain ⟨b, -, h⟩ := bind_eq_ok.1 h
    obtain ⟨-, -, h⟩ := bind_eq_ok.1 (liftFrame_eq_ok.1 h)
    obtain rfl := Except.ok.inj h
    exact combined (fun x y => Scalar.coerce_ofTruth _) a b
  | like a _ | isNull a | not a =>
    obtain ⟨a, -, h⟩ := bind_eq_ok.1 h
    obtain rfl := Except.ok.inj h
    intro v hv
    obtain ⟨x, -, rfl⟩ := List.mem_map.1 hv
    first | exact Elementwise.likeCell_declared _ x | rfl | exact Scalar.coerce_ofTruth _

/-- The type of an operand of arithmetic is that of its field, which arithmetic takes. -/
theorem numericOperand_eq_ok {type : DataType} (h : g.numericOperand d = .ok type) :
    ∃ f, g.operandField d = .ok f ∧ f.type = type ∧ Elementwise.takes type = true := by
  obtain ⟨f, hf, h⟩ := bind_eq_ok.1 h
  dsimp only at h
  split at h
  · rename_i htakes
    obtain rfl := Except.ok.inj h
    exact ⟨f, hf, rfl, htakes⟩
  · cases h

theorem arithmetic_declared (hg : g.WellFormed) {e : Arithmetic} {type : DataType}
    (htype : e.HasType g type) (h : ∀ d ∈ e.operands, g.FetchesDeclared fetch d) {rows : Nat}
    {values : List Scalar} (hv : e.values (g.operandValues fetch rows) = .ok values) :
    ∀ v ∈ values, v.coerce type = v := by
  intro v hmem
  cases e with
  | binary op l r =>
    obtain ⟨t, u, ht, hu, rfl⟩ := htype
    obtain ⟨f, hf, rfl, htakes⟩ := numericOperand_eq_ok ht
    obtain ⟨f', hf', rfl, htakes'⟩ := numericOperand_eq_ok hu
    obtain ⟨a, ha, hv⟩ := bind_eq_ok.1 hv
    obtain ⟨b, hb, hv⟩ := bind_eq_ok.1 hv
    obtain ⟨-, -, hv⟩ := bind_eq_ok.1 (liftFrame_eq_ok.1 hv)
    obtain ⟨⟨x, y⟩, hxy, hcell⟩ := exists_of_mem_mapM hv hmem
    have hx := (h l (by simp [Arithmetic.operands])).operand hg ha hf x (List.of_mem_zip hxy).1
    have hy := (h r (by simp [Arithmetic.operands])).operand hg hb hf' y (List.of_mem_zip hxy).2
    exact Elementwise.arithCells_declared htakes htakes' hx hy hcell
  | unary op a =>
    obtain ⟨t, ht, rfl⟩ := htype
    obtain ⟨f, hf, rfl, -⟩ := numericOperand_eq_ok ht
    obtain ⟨a', ha, hv⟩ := bind_eq_ok.1 hv
    obtain ⟨x, hx, hcell⟩ := exists_of_mem_mapM (liftFrame_eq_ok.1 hv) hmem
    have hx := (h a (by simp [Arithmetic.operands])).operand hg ha hf x hx
    exact Elementwise.unaryCell_declared hx hcell

/-! ## Tables -/

/-- A supplied function yields the columns that are declared, and what it yields is given their types. -/
theorem applied_declared {n : Node} {name : String} {func : TableFn} {u : Table}
    (hs : firstRepeated [] n.schema.names = none) (h : n.applied name func t = .ok u) :
    u.IsDeclared n.schema := by
  obtain ⟨out, -, h⟩ := bind_eq_ok.1 h
  simp only [throw_eq_error, error_bind, ite_error_eq_ok, ne_eq, not_not] at h
  obtain ⟨hnames, h⟩ := h
  obtain rfl := Except.ok.inj h
  refine ⟨⟨(out.names_coerce _).trans hnames, ?_⟩, ?_⟩
  · rw [out.names_coerce, hnames]
    exact Schema.firstRepeated_nil_eq_none.1 hs
  · rw [Table.coerce_eq_self_iff_mem]
    intro c hc f hf v hv
    obtain ⟨d, -, rfl⟩ := List.mem_map.1 hc
    cases hfield : n.schema.field? d.name with
    | none =>
      rw [hfield] at hf
      rw [hf] at hfield
      cases hfield
    | some f' =>
      rw [hfield] at hf hv
      obtain rfl := Option.some.inj (hfield.symm.trans hf)
      obtain ⟨x, -, rfl⟩ := List.mem_map.1 hv
      exact Scalar.coerce_coerce _ _

/-- A constant is a column of one cell, of its own type. -/
theorem constant_declared {i : NodeId} {name : String} {op : Op} {c : Scalar} :
    (Node.mk i name op ⟨[⟨constantColumn, c.dataType, c.isNull⟩]⟩).Declares (.scalar c) := by
  refine ⟨⟨[⟨constantColumn, [c]⟩]⟩, Table.build_eq_ok.2 ⟨rfl, ?_⟩, ?_⟩
  · exact ⟨by simp [Table.rowCount], List.nodup_singleton _⟩
  · refine Table.isDeclared_of_columns (.cons ⟨rfl, fun v hv => ?_⟩ .nil) (List.nodup_singleton _)
    obtain rfl := List.mem_singleton.1 hv
    exact Scalar.coerce_dataType v

/-- Tables that are stacked are as a union declares them just if it takes over no cell that the types would
change. -/
theorem union_declared_iff {inputs : List NodeId} {i : NodeId} {name : String} {schema : Schema}
    {tables : List Table} {u : Table} (h : ∀ d ∈ inputs, g.FetchesDeclared fetch d)
    (htables : List.Forall₂ (fun d t => g.inputTable fetch d = .ok t) inputs tables)
    (hu : Table.concat tables schema.names = .ok u) :
    u.HasColumns schema ∧
      (u.coerce schema = u ↔ g.NeedsNoConversion fetch ⟨i, name, .union inputs, schema⟩) := by
  have declares : ∀ t ∈ tables, t.names.Nodup := fun t ht => by
    obtain ⟨d, hd, ht⟩ := exists_of_mem_right htables ht
    obtain ⟨m, w, hm, -, -⟩ := inputTable_eq_ok.1 ht
    exact ((h d hd).table ht (schema?_eq_some hm)).nodup
  obtain ⟨hcolumns, hiff⟩ := Table.concat_declared_iff hu declares
  refine ⟨hcolumns, hiff.trans ⟨fun hall d hd t ht => ?_, fun hall t ht => ?_⟩⟩
  · obtain ⟨t', ht', hinput⟩ := exists_of_mem_left htables hd
    obtain rfl := Except.ok.inj (ht.symm.trans hinput)
    exact hall t ht'
  · obtain ⟨d, hd, hinput⟩ := exists_of_mem_right htables ht
    exact hall d hd t hinput

/-! ## Evaluations -/

/-- **An evaluation yields what its node declares, unless the node is a union that widens a type of which
it takes over a value, or a sum or product of no floats.** If what is fetched of the nodes it reads is as
these declare it, then its result has the columns of the node, and the types of the node change no cell
just if no conversion was needed. -/
theorem evaluate_declared_iff (hg : g.Constructed) {n : Node} (hn : g.node? id = some n)
    (h : ∀ d ∈ n.op.reads, g.FetchesDeclared fetch d) {v : Result}
    (hv : g.evaluate fetch id = .ok v) : ∃ t, v.toTable n.columns = .ok t ∧
      t.HasColumns n.schema ∧ (t.coerce n.schema = t ↔ g.NeedsNoConversion fetch n) := by
  have hg := hg.wellFormed
  have hs := hg.hasSchema hn
  have hv := evaluates_of_evaluate hn hv
  have declared {w : Result} (hw : n.Declares w) (hc : g.NeedsNoConversion fetch n) :
      ∃ t, w.toTable n.columns = .ok t ∧ t.HasColumns n.schema ∧
        (t.coerce n.schema = t ↔ g.NeedsNoConversion fetch n) := by
    obtain ⟨t, ht, hdecl⟩ := hw
    exact ⟨t, ht, hdecl.toHasColumns, iff_of_true hdecl.coerce hc⟩
  have table {u : Table} (hu : u.IsDeclared n.schema) : n.Declares (.table u) := ⟨u, rfl, hu⟩
  obtain ⟨i, name, op, schema⟩ := n
  cases op <;> simp only [Op.HasSchema, Op.reads, Op.tables, Op.sources, Op.evalSources,
    List.append_nil, List.mem_append, List.mem_cons, List.not_mem_nil, or_false, forall_eq,
    forall_eq_or_imp, Evaluates] at hs h hv
  case constant c =>
    subst hv hs
    exact declared constant_declared trivial
  case criterion =>
    obtain ⟨⟨name, rfl⟩, -⟩ := hs
    obtain ⟨t, values, -, hvalues, hv⟩ := hv
    exact declared (expressionTable_declared rfl (criterion_declared hvalues) hv) trivial
  case arithmetic =>
    obtain ⟨name, type, rfl, htype⟩ := hs
    obtain ⟨t, values, -, hvalues, hv⟩ := hv
    exact declared (expressionTable_declared rfl (arithmetic_declared hg htype h.2 hvalues) hv) trivial
  case projection distinct =>
    obtain ⟨-, -, s, hsource, hproject⟩ := hs
    obtain ⟨t, selected, u, ht, hselect, hu, rfl⟩ := hv
    have hselected := (h.table ht hsource).select hproject hselect
    split at hu
    · exact declared (table (hselected.dropDuplicates hu)) trivial
    · exact declared (table (hu ▸ hselected)) trivial
  case selection =>
    obtain ⟨t, mask, u, ht, -, hu, rfl⟩ := hv
    exact declared (table ((h.1.table ht hs).filter hu)) trivial
  case join =>
    obtain ⟨rfl, s, s', hleft, hright, hmake⟩ := hs
    obtain ⟨l, r, u, hl, hr, hu, rfl⟩ := hv
    exact declared (table ((h.1.table hl hleft).join (h.2.table hr hright) hmake hu)) trivial
  case union =>
    obtain ⟨tables, u, htables, hu, rfl⟩ := hv
    obtain ⟨hcolumns, hiff⟩ := union_declared_iff h htables hu
    exact ⟨u, rfl, hcolumns, hiff⟩
  case orderBy =>
    obtain ⟨-, hsource, -⟩ := hs
    obtain ⟨t, u, ht, hu, rfl⟩ := hv
    exact declared (table ((h.table ht hsource).sortValues hu)) trivial
  case limit =>
    obtain ⟨t, ht, rfl⟩ := hv
    exact declared (table ((h.table ht hs).take _)) trivial
  case aggregator source func input keys columns =>
    obtain ⟨hne, s, keyFields, fields, hinput, hkeys, hfields, rfl⟩ := hs
    obtain ⟨t, u, ht, hu⟩ := hv
    have hdecl := h.table ht hinput
    have only : g.NeedsNoConversion fetch
        ⟨i, name, .aggregator source func input keys columns, ⟨keyFields ++ fields⟩⟩ ↔
          t.SumsSomething func keys columns ⟨keyFields ++ fields⟩ :=
      ⟨fun h => h t ht, fun h t' ht' => Except.ok.inj (ht.symm.trans ht') ▸ h⟩
    split at hu
    · subst keys
      obtain ⟨hu, rfl⟩ := hu
      obtain rfl := Except.ok.inj hkeys
      obtain ⟨hcolumns, hiff⟩ := Table.aggregateTable_declared_iff hdecl hfields hu
      have hshown := Table.toTable_collapse_aggregates hu hne
      rw [hcolumns.names] at hshown
      exact ⟨u, hshown, hcolumns, hiff.trans only.symm⟩
    · rename_i hgrouped
      obtain ⟨hu, rfl⟩ := hu
      obtain ⟨hcolumns, hiff⟩ := Table.aggregateGroups_declared_iff hdecl hgrouped hkeys hfields hu
      exact ⟨u, rfl, hcolumns, hiff.trans only.symm⟩
  case rename =>
    obtain ⟨-, s, hsource, -, rfl⟩ := hs
    obtain ⟨t, u, ht, hu, rfl⟩ := hv
    exact declared (table ((h.table ht hsource).rename hu)) trivial
  case assign =>
    obtain ⟨s, f, hsource, hf, rfl⟩ := hs
    obtain ⟨t, values, u, ht, hvalues, hu, rfl⟩ := hv
    exact declared (table ((h.1.table ht hsource).assignColumn (h.2.operand hg hvalues hf) hu)) trivial
  case describe =>
    obtain ⟨s, hsource, rfl⟩ := hs
    obtain ⟨t, u, ht, hu, rfl⟩ := hv
    exact declared (table ((h.table ht hsource).describe hu)) trivial
  case apply =>
    obtain ⟨t, u, -, hu, rfl⟩ := hv
    exact declared (table (applied_declared hs.2 hu)) trivial

/-- A column of truth values stacked on one of integers. -/
def truthsOnIntegers : Graph :=
  ⟨"s", #[⟨0, "ts_0", .source, ⟨[⟨"k", .boolean, true⟩]⟩⟩, ⟨1, "ts_1", .source, ⟨[⟨"k", .int64, true⟩]⟩⟩,
    ⟨2, "ts_2", .union [0, 1], ⟨[⟨"k", .int64, true⟩]⟩⟩], #[[2], [2], []]⟩

theorem constructed_truthsOnIntegers : truthsOnIntegers.Constructed :=
  .add (r := (2, truthsOnIntegers)) (.add (.add (.empty "s") (.source ⟨[⟨"k", .boolean, true⟩]⟩) rfl)
    (.source ⟨[⟨"k", .int64, true⟩]⟩) rfl) (.union [0, 1]) rfl

/-- The truth value stands in the column of integers, which would make it the integer 1. -/
theorem evaluate_declared_iff_truths : ∃ (fetch : Fetch) (v : Result) (t : Table),
    truthsOnIntegers.evaluate fetch 2 = .ok v ∧ v.toTable ["k"] = .ok t ∧
      t.coerce ⟨[⟨"k", .int64, true⟩]⟩ ≠ t := by
  let shown (d : NodeId) : Table := ⟨[⟨"k", if d = 0 then [.bool true] else [.int 1]⟩]⟩
  let fetch : Fetch := fun d => .ok (.table (shown d))
  have hn : truthsOnIntegers.node? 2 = some ⟨2, "ts_2", .union [0, 1], ⟨[⟨"k", .int64, true⟩]⟩⟩ := rfl
  have hdeclared : ∀ d ∈ [0, 1], truthsOnIntegers.FetchesDeclared fetch d := by
    intro d hd m w hm hw
    obtain rfl := Except.ok.inj hw
    have hd : d = 0 ∨ d = 1 := by simpa using hd
    rcases hd with rfl | rfl <;> obtain rfl := Option.some.inj hm <;>
      exact ⟨_, rfl, ⟨rfl, by decide⟩, by decide⟩
  obtain ⟨v, hv⟩ : ∃ v, truthsOnIntegers.evaluate fetch 2 = .ok v := ⟨_, rfl⟩
  obtain ⟨t, ht, -, hiff⟩ := evaluate_declared_iff constructed_truthsOnIntegers hn hdeclared hv
  refine ⟨fetch, v, t, hv, ht, fun hcoerce => ?_⟩
  have hkept := hiff.1 hcoerce 0 (by simp) (shown 0) rfl
  revert hkept
  decide

end Graph
end LazyQuery
