import LazyQuery.Proofs.Graph.WellFormed

/-!
# Graphs that constructors build

`Construction` is a call of a constructor as a value. Every constructor checks its arguments before it
adds a node, and the checks are enough for the links and the schema of the node that is added
(`Construction.adds`). So graphs stay well-formed, and nothing that is in a graph changes.
-/

set_option autoImplicit false

namespace LazyQuery

/-- A call of a constructor of graphs. -/
inductive Construction
  | source (schema : Schema)
  | constant (value : Scalar)
  | compare (op : CompareOp) (left right : NodeId)
  | like (operand : NodeId) (pattern : String)
  | isNull (operand : NodeId)
  | logical (op : Connective) (left : NodeId) (right : Option NodeId)
  | arith (op : ArithOp) (left right : NodeId)
  | unary (op : UnaryOp) (operand : NodeId)
  | projection (table : NodeId) (columns : List String) (distinct : Bool)
  | selection (table criterion : NodeId)
  | join (left right : NodeId) (leftOn rightOn : List String) (how : JoinType)
  | union (inputs : List NodeId)
  | orderBy (table : NodeId) (keys : List (String × Bool))
  | limit (table : NodeId) (n : Nat)
  | groupBy (table : NodeId) (keys : List String)
  | groupProjection (group : NodeId) (columns : List String)
  | aggregate (table : NodeId) (func : AggFunc)
  | rename (table : NodeId) (mapping : List (String × String))
  | assign (target : NodeId) (column : String) (value : NodeId)
  | describe (table : NodeId)
  | apply (table : NodeId) (name : String) (output : Schema) (func : TableFn)

/-- The call, made on a graph. -/
def Construction.call (g : Graph) : Construction → Graph.Built
  | source schema => g.addSource schema
  | constant v => pure (g.addConstant v)
  | compare op l r => g.addCompare op l r
  | like a pattern => g.addLike a pattern
  | isNull a => g.addIsNull a
  | logical op l r => g.addLogical op l r
  | arith op l r => g.addArith op l r
  | unary op a => g.addUnary op a
  | projection t columns distinct => g.addProjection t columns distinct
  | selection t c => g.addSelection t c
  | join l r leftOn rightOn how => g.addJoin l r leftOn rightOn how
  | union inputs => g.addUnion inputs
  | orderBy t keys => g.addOrderBy t keys
  | limit t n => g.addLimit t n
  | groupBy t keys => g.addGroupBy t keys
  | groupProjection group columns => g.addGroupProjection group columns
  | aggregate t func => g.addAggregate t func
  | rename t mapping => g.addRename t mapping
  | assign t column v => g.addAssign t column v
  | describe t => g.addDescribe t
  | apply t name output func => g.addApply t name output func

namespace Graph

/-- What a constructor yields is the graph with one more node, which is linked and has the schema that
follows from those of its inputs. -/
def Adds (g : Graph) (r : NodeId × Graph) : Prop :=
  ∃ op schema, op.Linked g ∧ op.HasSchema g schema ∧ r = g.push op schema

@[simp] theorem refuse_eq_error {α : Type} (e : ConstructionError) :
    (refuse e : Except PlanError α) = .error (.construction e) := rfl

@[simp] theorem lift_eq_ok {α : Type} {x : Except ConstructionError α} {a : α} :
    (liftM x : Except PlanError α) = .ok a ↔ x = .ok a :=
  mapError_eq_ok

variable {g : Graph}

/-! ## Checks of arguments -/

theorem table_eq_ok {id : NodeId} {n : Node} (h : g.table id = .ok n) :
    g.node? id = some n ∧ n.op.isTable = true := by
  simp only [table, bind_eq_ok, node_eq_ok] at h
  obtain ⟨m, hm, h⟩ := h
  split at h
  · cases h
  · split at h
    · cases h
    · cases h
      rename_i hv hc
      refine ⟨hm, ?_⟩
      rw [Op.isTable]
      · simpa using hc
      · exact hv

theorem schema?_of_table {id : NodeId} {n : Node} (h : g.table id = .ok n) :
    g.schema? id = some n.schema :=
  schema?_eq_some (table_eq_ok h).1

theorem has_of_table {id : NodeId} {n : Node} (h : g.table id = .ok n) :
    g.Has (·.isTable) id :=
  ⟨n, table_eq_ok h⟩

/-- An operand is a constant, or belongs to the table that `expressionBase` finds. -/
theorem expressionBase_spec (hg : g.WellFormed) {id : NodeId} {base : Option NodeId}
    (h : g.expressionBase id = .ok base) :
    match base with
    | none => ∀ t, g.Has (·.IsOperandOf t) id
    | some t => g.Has (·.isTable) t ∧ g.Has (·.IsOperandOf t) id := by
  simp only [expressionBase, bind_eq_ok, node_eq_ok] at h
  obtain ⟨n, hn, h⟩ := h
  have hl := hg.linked hn
  split at h
  · cases h
    rename_i v hop
    exact fun t => ⟨n, hn, by rw [hop]; trivial⟩
  · cases h
    rename_i t c d hop
    rw [hop] at hl
    exact ⟨hl, n, hn, by rw [hop]; rfl⟩
  · cases h
    rename_i o c hop
    rw [hop] at hl
    exact ⟨hl.1, n, hn, by rw [hop]; rfl⟩
  · cases h
    rename_i o a hop
    rw [hop] at hl
    exact ⟨hl.1, n, hn, by rw [hop]; rfl⟩
  · cases h

/-- What is known of the operands that were taken in: all belong to the owner. -/
def OwnerOf (g : Graph) (owner : Owner) (operands : List NodeId) : Prop :=
  match owner with
  | none => ∀ a ∈ operands, ∀ t, g.Has (·.IsOperandOf t) a
  | some (t, _) => g.Has (·.isTable) t ∧ ∀ a ∈ operands, g.Has (·.IsOperandOf t) a

theorem joinOwner_spec (hg : g.WellFormed) {owner owner' : Owner} {id : NodeId}
    {operands : List NodeId} (ho : g.OwnerOf owner operands)
    (h : g.joinOwner owner id = .ok owner') : g.OwnerOf owner' (operands ++ [id]) := by
  simp only [joinOwner, bind_eq_ok] at h
  obtain ⟨base, hb, h⟩ := h
  have hs := expressionBase_spec hg hb
  cases base with
  | none =>
    cases h
    cases owner with
    | none =>
      intro a ha
      rcases List.mem_append.1 ha with ha | ha
      · exact ho a ha
      · rw [List.mem_singleton.1 ha]
        exact hs
    | some p =>
      refine ⟨ho.1, fun a ha => ?_⟩
      rcases List.mem_append.1 ha with ha | ha
      · exact ho.2 a ha
      · rw [List.mem_singleton.1 ha]
        exact hs _
  | some t =>
    cases owner with
    | none =>
      obtain ⟨f, -, h⟩ := bind_eq_ok.1 h
      cases h
      refine ⟨hs.1, fun a ha => ?_⟩
      rcases List.mem_append.1 ha with ha | ha
      · exact ho a ha t
      · rw [List.mem_singleton.1 ha]
        exact hs.2
    | some p =>
      simp only at h
      split at h
      · cases h
        rename_i he
        refine ⟨ho.1, fun a ha => ?_⟩
        rcases List.mem_append.1 ha with ha | ha
        · exact ho.2 a ha
        · rw [List.mem_singleton.1 ha, he]
          exact hs.2
      · obtain ⟨_, -, h⟩ := bind_eq_ok.1 h
        obtain ⟨_, -, h⟩ := bind_eq_ok.1 h
        cases h

theorem foldlM_joinOwner_spec (hg : g.WellFormed) {owner owner' : Owner}
    {before operands : List NodeId} (ho : g.OwnerOf owner before)
    (h : operands.foldlM g.joinOwner owner = .ok owner') :
    g.OwnerOf owner' (before ++ operands) := by
  induction operands generalizing owner before with
  | nil =>
    cases h
    rwa [List.append_nil]
  | cons a rest ih =>
    rw [List.foldlM_cons, bind_eq_ok] at h
    obtain ⟨o, ha, h⟩ := h
    have := ih (joinOwner_spec hg ho ha) h
    rwa [List.append_assoc] at this

theorem expressionOwner_spec (hg : g.WellFormed) {operands : List NodeId} {owner : NodeId}
    {name : String} (h : g.expressionOwner operands = .ok (owner, name)) :
    g.Has (·.isTable) owner ∧ ∀ a ∈ operands, g.Has (·.IsOperandOf owner) a := by
  simp only [expressionOwner, bind_eq_ok] at h
  obtain ⟨o, hf, h⟩ := h
  have hnone : g.OwnerOf none [] := fun a ha => by cases ha
  have := foldlM_joinOwner_spec hg hnone hf
  cases o with
  | none => cases h
  | some p =>
    cases h
    exact this

/-! ## Constructors -/

theorem adds_push {op : Op} {schema : Schema} (h : op.Linked g) (hs : op.HasSchema g schema) :
    g.Adds (g.push op schema) :=
  ⟨op, schema, h, hs, rfl⟩

theorem addSource_adds {schema : Schema} {r : NodeId × Graph} (h : g.addSource schema = .ok r) :
    g.Adds r := by
  rw [addSource] at h
  split at h
  · cases h
  · cases h
    rename_i hs
    exact adds_push trivial hs

theorem eq_push_of_addSource {schema : Schema} {id : NodeId} {g' : Graph}
    (h : g.addSource schema = .ok (id, g')) : g' = (g.push .source schema).2 := by
  rw [addSource] at h
  split at h
  · cases h
  · cases h
    rfl

theorem addCriterion_adds (hg : g.WellFormed) {c : Criterion} {r : NodeId × Graph}
    (h : g.addCriterion c = .ok r) (hc : c.Typed g) : g.Adds r := by
  simp only [addCriterion, bind_eq_ok] at h
  obtain ⟨⟨owner, name⟩, ho, h⟩ := h
  cases h
  exact adds_push (expressionOwner_spec hg ho) ⟨⟨name, rfl⟩, hc⟩

theorem addCompare_adds (hg : g.WellFormed) {op : CompareOp} {a b : NodeId} {r : NodeId × Graph}
    (h : g.addCompare op a b = .ok r) : g.Adds r := by
  simp only [addCompare, bind_eq_ok] at h
  obtain ⟨f, hf, f', hf', h⟩ := h
  split at h
  · cases h
  · rename_i hcomp
    refine addCriterion_adds hg h ⟨f, f', hf, hf', ?_⟩
    revert hcomp
    cases f.type <;> cases f'.type <;> decide

/-- An operand that a connective accepts is a condition. -/
theorem has_of_checkCriterion {op : Connective} {a : NodeId} (h : g.checkCriterion op a = .ok ()) :
    g.Has (·.IsCriterion) a := by
  simp only [checkCriterion, bind_eq_ok, node_eq_ok] at h
  obtain ⟨n, hn, h⟩ := h
  split at h
  · rename_i hop
    exact ⟨n, hn, by rw [hop]; trivial⟩
  · cases h

theorem addLogical_adds (hg : g.WellFormed) {op : Connective} {a : NodeId} {b : Option NodeId}
    {r : NodeId × Graph} (h : g.addLogical op a b = .ok r) : g.Adds r := by
  unfold addLogical at h
  split at h <;> simp only [pure_eq_ok, ok_bind, refuse_eq_error, error_bind, bind_eq_ok] at h
  case h_4 => cases h
  case h_1 =>
    obtain ⟨⟨⟩, hcheck, h⟩ := h
    simp only [Criterion.operands, List.forM, bind_eq_ok] at hcheck
    obtain ⟨⟨⟩, ha, -⟩ := hcheck
    exact addCriterion_adds hg h (has_of_checkCriterion ha)
  all_goals
    obtain ⟨⟨⟩, hcheck, h⟩ := h
    simp only [Criterion.operands, List.forM, bind_eq_ok] at hcheck
    obtain ⟨⟨⟩, hl, ⟨⟩, hr, -⟩ := hcheck
    exact addCriterion_adds hg h ⟨has_of_checkCriterion hl, has_of_checkCriterion hr⟩

theorem addArith_adds (hg : g.WellFormed) {op : ArithOp} {a b : NodeId} {r : NodeId × Graph}
    (h : g.addArith op a b = .ok r) : g.Adds r := by
  simp only [addArith, bind_eq_ok] at h
  obtain ⟨⟨owner, name⟩, ho, t, ht, u, hu, h⟩ := h
  cases h
  exact adds_push (expressionOwner_spec hg ho) ⟨name, _, rfl, t, u, ht, hu, rfl⟩

theorem addUnary_adds (hg : g.WellFormed) {op : UnaryOp} {a : NodeId} {r : NodeId × Graph}
    (h : g.addUnary op a = .ok r) : g.Adds r := by
  simp only [addUnary, bind_eq_ok] at h
  obtain ⟨⟨owner, name⟩, ho, t, ht, h⟩ := h
  cases h
  exact adds_push (expressionOwner_spec hg ho) ⟨name, _, rfl, t, ht, rfl⟩

theorem addProjection_adds {t : NodeId} {columns : List String} {distinct : Bool}
    {r : NodeId × Graph} (h : g.addProjection t columns distinct = .ok r) : g.Adds r := by
  simp only [addProjection, refuse_eq_error, error_bind, ite_error_eq_ok, bind_eq_ok] at h
  obtain ⟨hne, n, hn, schema, hs, hd, h⟩ := h
  cases h
  exact adds_push (has_of_table hn)
    ⟨by simpa using hne, not_not.1 hd, n.schema, schema?_of_table hn, lift_eq_ok.1 hs⟩

theorem addSelection_adds (hg : g.WellFormed) {t c : NodeId} {r : NodeId × Graph}
    (h : g.addSelection t c = .ok r) : g.Adds r := by
  simp only [addSelection, refuse_eq_error, error_bind, ite_error_eq_ok, bind_eq_ok,
    node_eq_ok] at h
  obtain ⟨n, hn, m, hm, hp, base, hb, hbase, h⟩ := h
  cases h
  have hbase : base = some t := by simpa using hbase
  subst hbase
  obtain ⟨m', hm', hop⟩ := (expressionBase_spec hg hb).2
  rw [hm, Option.some.injEq] at hm'
  subst hm'
  refine adds_push ⟨has_of_table hn, m, hm, ?_⟩ (schema?_of_table hn)
  have hp : isPredicate m.op = true := by simpa using hp
  unfold isPredicate at hp
  unfold Op.IsOperandOf at hop
  unfold Op.IsPredicateOf
  split at hp <;> simp_all

theorem addJoin_adds {a b : NodeId} {leftOn rightOn : List String} {how : JoinType}
    {r : NodeId × Graph} (h : g.addJoin a b leftOn rightOn how = .ok r) : g.Adds r := by
  simp only [addJoin, bind_eq_ok] at h
  obtain ⟨m, hm, n, hn, layout, hl, h⟩ := h
  cases h
  exact adds_push ⟨has_of_table hm, has_of_table hn⟩
    ⟨rfl, m.schema, n.schema, schema?_of_table hm, schema?_of_table hn, lift_eq_ok.1 hl⟩

theorem widenBy_has {schema schema' : Schema} {id : NodeId}
    (h : g.widenBy schema id = .ok schema') : g.Has (·.isTable) id := by
  simp only [widenBy, bind_eq_ok] at h
  obtain ⟨n, hn, -⟩ := h
  exact has_of_table hn

theorem foldlM_widenBy_has {schema schema' : Schema} {ids : List NodeId}
    (h : ids.foldlM g.widenBy schema = .ok schema') : ∀ i ∈ ids, g.Has (·.isTable) i := by
  induction ids generalizing schema with
  | nil => intro i hi; cases hi
  | cons a rest ih =>
    rw [List.foldlM_cons, bind_eq_ok] at h
    obtain ⟨s, ha, h⟩ := h
    intro i hi
    rcases List.mem_cons.1 hi with rfl | hi
    · exact widenBy_has ha
    · exact ih h i hi

theorem addUnion_adds {inputs : List NodeId} {r : NodeId × Graph}
    (h : g.addUnion inputs = .ok r) : g.Adds r := by
  cases inputs with
  | nil => cases h
  | cons first rest =>
    simp only [addUnion, bind_eq_ok] at h
    obtain ⟨n, hn, schema, hs, h⟩ := h
    cases h
    refine adds_push ⟨by simp, fun i hi => ?_⟩ ⟨first, rest, n.schema, rfl, schema?_of_table hn, hs⟩
    rcases List.mem_cons.1 hi with rfl | hi
    · exact has_of_table hn
    · exact foldlM_widenBy_has hs i hi

theorem addOrderBy_adds {t : NodeId} {keys : List (String × Bool)} {r : NodeId × Graph}
    (h : g.addOrderBy t keys = .ok r) : g.Adds r := by
  simp only [addOrderBy, refuse_eq_error, error_bind, ite_error_eq_ok, bind_eq_ok] at h
  obtain ⟨n, hn, hne, ⟨⟩, hk, h⟩ := h
  cases h
  exact adds_push (has_of_table hn) ⟨by simpa using hne, schema?_of_table hn, lift_eq_ok.1 hk⟩

theorem addLimit_adds {t : NodeId} {k : Nat} {r : NodeId × Graph}
    (h : g.addLimit t k = .ok r) : g.Adds r := by
  simp only [addLimit, bind_eq_ok] at h
  obtain ⟨n, hn, h⟩ := h
  cases h
  exact adds_push (has_of_table hn) (schema?_of_table hn)

theorem addGroupBy_adds {t : NodeId} {keys : List String} {r : NodeId × Graph}
    (h : g.addGroupBy t keys = .ok r) : g.Adds r := by
  simp only [addGroupBy, refuse_eq_error, error_bind, ite_error_eq_ok, bind_eq_ok] at h
  obtain ⟨n, hn, -, ⟨⟩, hk, h⟩ := h
  cases h
  exact adds_push (has_of_table hn) ⟨schema?_of_table hn, lift_eq_ok.1 hk⟩

theorem addGroupProjection_adds (hg : g.WellFormed) {group : NodeId} {columns : List String}
    {r : NodeId × Graph} (h : g.addGroupProjection group columns = .ok r) : g.Adds r := by
  simp only [addGroupProjection, bind_eq_ok, node_eq_ok] at h
  obtain ⟨n, hn, h⟩ := h
  have hl := hg.linked hn
  split at h
  · rename_i t keys hop
    rw [hop] at hl
    obtain ⟨schema, hs, h⟩ := bind_eq_ok.1 h
    cases h
    exact adds_push ⟨hl, n, hn, hop⟩ ⟨n.schema, schema?_eq_some hn, lift_eq_ok.1 hs⟩
  · cases h

theorem addAggregate_adds (hg : g.WellFormed) {source : NodeId} {func : AggFunc}
    {r : NodeId × Graph} (h : g.addAggregate source func = .ok r) : g.Adds r := by
  simp only [addAggregate, refuse_eq_error, error_bind, ite_error_eq_ok, bind_eq_ok,
    node_eq_ok] at h
  obtain ⟨n, hn, ⟨input, keys, chosen⟩, hi, m, hm, hne, keyFields, hkeys, fields, hfields, h⟩ := h
  cases h
  have hl := hg.linked hn
  refine adds_push ?_
    ⟨by simpa using hne, m.schema, keyFields, fields, schema?_eq_some hm, hkeys, hfields, rfl⟩
  unfold aggregationInput at hi
  split at hi
  · rename_i t ks hop
    cases hi
    rw [hop] at hl
    exact ⟨hl, .inr ⟨n, hn, by rw [hop]; exact ⟨rfl, rfl⟩⟩⟩
  · rename_i grp t ks cs hop
    cases hi
    rw [hop] at hl
    exact ⟨hl.1, .inr ⟨n, hn, by rw [hop]; exact ⟨rfl, rfl⟩⟩⟩
  · cases hi
  · rename_i hgroup hproj hconst
    cases hi
    rw [hg.id_eq hn]
    refine ⟨⟨n, hn, ?_⟩, .inl ⟨rfl, rfl⟩⟩
    cases hop : n.op
    case constant => exact absurd hop (hconst _)
    case groupBy => exact absurd hop (hgroup _ _)
    case groupProjection => exact absurd hop (hproj _ _ _ _)
    all_goals rfl

theorem renamed_field (mapping : List (String × String)) (f : Field) :
    (match mapping.find? (·.1 == f.name) with
      | some (_, renamed) => { f with name := renamed }
      | none => f) = { f with name := Table.newName mapping f.name } := by
  rw [Table.newName]
  cases mapping.find? (·.1 == f.name) <;> rfl

theorem addRename_adds {t : NodeId} {mapping : List (String × String)} {r : NodeId × Graph}
    (h : g.addRename t mapping = .ok r) : g.Adds r := by
  simp only [addRename, bind_eq_ok] at h
  obtain ⟨n, hn, ⟨⟩, hm, h⟩ := h
  split at h
  · cases h
  · cases h
    rename_i hd
    refine adds_push (has_of_table hn) ⟨hd, n.schema, schema?_of_table hn, lift_eq_ok.1 hm, ?_⟩
    exact congrArg Schema.mk (List.map_congr_left fun f _ => renamed_field mapping f)

theorem addAssign_adds (hg : g.WellFormed) {t v : NodeId} {column : String} {r : NodeId × Graph}
    (h : g.addAssign t column v = .ok r) : g.Adds r := by
  simp only [addAssign, refuse_eq_error, bind_eq_ok] at h
  obtain ⟨n, hn, base, hb, h⟩ := h
  have hs := expressionBase_spec hg hb
  cases base with
  | none =>
    obtain ⟨f, hf, h⟩ := bind_eq_ok.1 h
    cases h
    exact adds_push ⟨has_of_table hn, hs t⟩ ⟨n.schema, f, schema?_of_table hn, hf, rfl⟩
  | some base =>
    simp only at h
    split at h
    · obtain ⟨_, -, h⟩ := bind_eq_ok.1 h
      cases h
    · rename_i hbase
      obtain ⟨f, hf, h⟩ := bind_eq_ok.1 h
      cases h
      rw [not_not] at hbase
      subst hbase
      exact adds_push ⟨has_of_table hn, hs.2⟩ ⟨n.schema, f, schema?_of_table hn, hf, rfl⟩

theorem addDescribe_adds {t : NodeId} {r : NodeId × Graph} (h : g.addDescribe t = .ok r) :
    g.Adds r := by
  simp only [addDescribe, bind_eq_ok] at h
  obtain ⟨n, hn, h⟩ := h
  cases h
  exact adds_push (has_of_table hn) ⟨n.schema, schema?_of_table hn, rfl⟩

theorem addApply_adds {t : NodeId} {name : String} {output : Schema} {func : TableFn}
    {r : NodeId × Graph} (h : g.addApply t name output func = .ok r) : g.Adds r := by
  simp only [addApply, refuse_eq_error, error_bind, ite_error_eq_ok, bind_eq_ok] at h
  obtain ⟨n, hn, hne, h⟩ := h
  split at h
  · cases h
  · cases h
    rename_i hd
    exact adds_push (has_of_table hn) ⟨by simpa using hne, hd⟩

end Graph

/-- **Every call of a constructor that succeeds adds one linked node.** -/
theorem Construction.adds {g : Graph} (hg : g.WellFormed) (c : Construction) {r : NodeId × Graph}
    (h : c.call g = .ok r) : g.Adds r := by
  cases c with
  | source => exact Graph.addSource_adds h
  | constant v =>
    cases h
    exact Graph.adds_push trivial rfl
  | compare => exact Graph.addCompare_adds hg h
  | like | isNull => exact Graph.addCriterion_adds hg h trivial
  | logical => exact Graph.addLogical_adds hg h
  | arith => exact Graph.addArith_adds hg h
  | unary => exact Graph.addUnary_adds hg h
  | projection => exact Graph.addProjection_adds h
  | selection => exact Graph.addSelection_adds hg h
  | join => exact Graph.addJoin_adds h
  | union => exact Graph.addUnion_adds h
  | orderBy => exact Graph.addOrderBy_adds h
  | limit => exact Graph.addLimit_adds h
  | groupBy => exact Graph.addGroupBy_adds h
  | groupProjection => exact Graph.addGroupProjection_adds hg h
  | aggregate => exact Graph.addAggregate_adds hg h
  | rename => exact Graph.addRename_adds h
  | assign => exact Graph.addAssign_adds hg h
  | describe => exact Graph.addDescribe_adds h
  | apply => exact Graph.addApply_adds h

namespace Graph

theorem Adds.wellFormed {g : Graph} (hg : g.WellFormed) {r : NodeId × Graph} (h : g.Adds r) :
    r.2.WellFormed := by
  obtain ⟨op, schema, hl, hs, rfl⟩ := h
  exact hg.push hl hs

theorem Adds.extends {g : Graph} {r : NodeId × Graph} (h : g.Adds r) : g.Extends r.2 := by
  obtain ⟨op, schema, -, -, rfl⟩ := h
  exact extends_push g op schema

theorem Adds.size {g : Graph} {r : NodeId × Graph} (h : g.Adds r) : r.2.size = g.size + 1 := by
  obtain ⟨op, schema, -, -, rfl⟩ := h
  exact size_push g op schema

theorem Adds.id {g : Graph} {r : NodeId × Graph} (h : g.Adds r) : r.1 = g.size := by
  obtain ⟨op, schema, -, -, rfl⟩ := h
  rfl

/-- Calls of constructors have built the graph. -/
inductive Constructed : Graph → Prop
  | empty (tag : String) : Constructed (empty tag)
  | add {g : Graph} {r : NodeId × Graph} (h : Constructed g) (c : Construction)
      (hr : c.call g = .ok r) : Constructed r.2

theorem Constructed.wellFormed {g : Graph} (h : g.Constructed) : g.WellFormed := by
  induction h with
  | empty tag => exact wellFormed_empty tag
  | add _ c hr ih => exact (c.adds ih hr).wellFormed ih

end Graph
end LazyQuery
