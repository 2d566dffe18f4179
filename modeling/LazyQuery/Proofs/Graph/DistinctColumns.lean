import LazyQuery.Proofs.Graph.Columns
import LazyQuery.Proofs.Graph.Consistency
import LazyQuery.Proofs.Table.Conforms

/-!
# Repeated columns

Constructors refuse column names that repeat, or build on names of which none repeats, with three
exceptions. The label column of summary statistics stands before the columns of the table, one of which
may have its name. A grouping takes keys as they come, and so its projection takes columns. Then the
projection of the grouping, or the aggregates of either, have a column twice, and no constructor looks
for it.

* `HasSchema.nodup` goes through the other operations: the names of such a node are distinct if those of
  its inputs are.
* `Construction.Clashes` says when one of the three calls yields a node with a repeated column
  (`distinct_iff_of_call`).
* `distinct_afterAll_iff` concludes that all nodes have distinct columns exactly if no call that was
  accepted was of this kind.
-/

set_option autoImplicit false

namespace LazyQuery

/-! ## Operations -/

/-- Is the operation one for which a constructor makes sure that no column is repeated? -/
def Op.IsGuarded : Op → Prop
  | describe _ | groupProjection _ _ _ _ | aggregator _ _ _ _ _ => False
  | _ => True

/-- Does a grouping name a column twice, among its keys or among the other columns that were chosen? -/
def Op.Repeats : Op → Prop
  | groupBy _ keys => ¬keys.Nodup
  | groupProjection _ _ keys columns =>
    ¬(keys.Nodup ∧ (columns.filter fun c => !keys.contains c).Nodup)
  | _ => False

namespace Graph

/-- Has every node columns of different names? -/
def Distinct (g : Graph) : Prop := ∀ i n, g.node? i = some n → n.columns.Nodup

theorem Distinct.schema? {g : Graph} (hd : g.Distinct) {i : NodeId} {s : Schema}
    (hs : g.schema? i = some s) : s.names.Nodup := by
  obtain ⟨n, hn, rfl⟩ := Option.map_eq_some_iff.1 hs
  exact hd _ _ hn

end Graph

/-- **Where a constructor guards the names, none is repeated**, if none is in the graph so far. -/
theorem Op.HasSchema.nodup {g : Graph} {op : Op} {s : Schema} (h : op.HasSchema g s)
    (hd : g.Distinct) (hop : op.IsGuarded) : s.names.Nodup := by
  cases op <;> simp only [Op.HasSchema] at h
  case source => exact Schema.firstRepeated_nil_eq_none.1 h
  case constant =>
    subst h
    exact List.nodup_singleton _
  case criterion =>
    obtain ⟨⟨name, rfl⟩, -⟩ := h
    exact List.nodup_singleton _
  case arithmetic =>
    obtain ⟨name, type, rfl, -⟩ := h
    exact List.nodup_singleton _
  case projection =>
    obtain ⟨-, hnodup, i, -, hproject⟩ := h
    rwa [Schema.names_project hproject]
  case selection | limit => exact hd.schema? h
  case join =>
    obtain ⟨rfl, i, j, -, -, hmake⟩ := h
    exact JoinLayout.nodup_of_make hmake
  case union =>
    obtain ⟨first, rest, i, -, hi, hwiden⟩ := h
    rw [Graph.names_of_widenBy hwiden]
    exact hd.schema? hi
  case orderBy => exact hd.schema? h.2.1
  case groupBy => exact hd.schema? h.1
  case rename => exact Schema.firstRepeated_nil_eq_none.1 h.1
  case assign =>
    obtain ⟨i, f, hi, -, rfl⟩ := h
    rw [Schema.names_put]
    split
    · exact hd.schema? hi
    · rename_i hnot
      exact List.concat_eq_append ▸ (hd.schema? hi).concat hnot
  case apply => exact Schema.firstRepeated_nil_eq_none.1 h.2
  case describe | groupProjection | aggregator => cases hop

/-! ## Calls -/

/-- Is the call one of a constructor that guards the names? -/
def Construction.IsGuarded : Construction → Prop
  | describe _ | groupProjection _ _ | aggregate _ _ => False
  | _ => True

/-- Would the node repeat a column? Summary statistics do if the table has a column of the label's name,
and the projection of a grouping or an aggregation if a key or a chosen column is named twice. -/
def Construction.Clashes (g : Graph) : Construction → Prop
  | describe t => ∃ n, g.node? t = some n ∧ Describe.labelColumn ∈ n.columns
  | groupProjection group columns => ∃ t keys, g.Has (fun op => op = .groupBy t keys) group ∧
    (Op.groupProjection group t keys columns).Repeats
  | aggregate table _ => g.Has (·.Repeats) table
  | _ => False

namespace Graph

variable {g : Graph} {c : Construction} {r : NodeId × Graph}

theorem push_inj {op op' : Op} {schema schema' : Schema}
    (h : g.push op schema = g.push op' schema') : op = op' ∧ schema = schema' := by
  have hnodes := congrArg (fun r => r.2.nodes) h
  rw [nodes_push, nodes_push, Array.push_eq_push, Node.mk.injEq] at hnodes
  exact hnodes.1.2.2

/-- A constructor that guards the names adds an operation for which it does. -/
theorem exists_push_of_isGuarded (hc : c.IsGuarded) (h : c.call g = .ok r) :
    ∃ op schema, op.IsGuarded ∧ g.push op schema = r := by
  have criterion {c : Criterion} (h : g.addCriterion c = .ok r) :
      ∃ op schema, op.IsGuarded ∧ g.push op schema = r := by
    obtain ⟨⟨owner, name⟩, -, h⟩ := bind_eq_ok.1 h
    exact ⟨.criterion owner c, _, trivial, Except.ok.inj h⟩
  cases c <;> simp only [Construction.call, addSource, addConstant, addCompare, addLike, addIsNull,
    addArith, addUnary, addProjection, addSelection, addJoin, addOrderBy, addLimit, addGroupBy,
    addRename, addAssign, addApply, refuse_eq_error, error_bind, ite_error_eq_ok, bind_eq_ok,
    pure_eq_ok, Except.ok.injEq] at h
  case describe | groupProjection | aggregate => cases hc
  case source =>
    split at h
    · cases h
    · exact ⟨.source, _, trivial, Except.ok.inj h⟩
  case constant => exact ⟨.constant _, _, trivial, h⟩
  case like | isNull => exact criterion h
  case compare =>
    obtain ⟨_, -, _, -, -, h⟩ := h
    exact criterion h
  case logical =>
    unfold addLogical at h
    split at h
    case h_4 => cases h
    all_goals
      obtain ⟨_, -, h⟩ := bind_eq_ok.1 h
      obtain ⟨_, -, h⟩ := bind_eq_ok.1 h
      exact criterion h
  case arith =>
    obtain ⟨_, -, _, -, _, -, h⟩ := h
    exact ⟨.arithmetic _ _, _, trivial, h⟩
  case unary =>
    obtain ⟨_, -, _, -, h⟩ := h
    exact ⟨.arithmetic _ _, _, trivial, h⟩
  case projection =>
    obtain ⟨-, _, -, _, -, -, h⟩ := h
    exact ⟨.projection _ _ _, _, trivial, h⟩
  case selection =>
    obtain ⟨_, -, _, -, -, _, -, -, h⟩ := h
    exact ⟨.selection _ _, _, trivial, h⟩
  case join =>
    obtain ⟨_, -, _, -, _, -, h⟩ := h
    exact ⟨.join _ _ _ _ _ _, _, trivial, h⟩
  case union inputs =>
    cases inputs with
    | nil => cases h
    | cons first rest =>
      obtain ⟨_, -, h⟩ := bind_eq_ok.1 h
      obtain ⟨_, -, h⟩ := bind_eq_ok.1 h
      exact ⟨.union _, _, trivial, Except.ok.inj h⟩
  case orderBy =>
    obtain ⟨_, -, -, _, -, h⟩ := h
    exact ⟨.orderBy _ _, _, trivial, h⟩
  case limit =>
    obtain ⟨_, -, h⟩ := h
    exact ⟨.limit _ _, _, trivial, h⟩
  case groupBy =>
    obtain ⟨_, -, -, _, -, h⟩ := h
    exact ⟨.groupBy _ _, _, trivial, h⟩
  case rename =>
    obtain ⟨_, -, _, -, h⟩ := h
    split at h
    · cases h
    · exact ⟨.rename _ _, _, trivial, Except.ok.inj h⟩
  case assign =>
    obtain ⟨_, -, base, -, h⟩ := h
    have added {column : String} {t v : NodeId} {schema : Field → Schema}
        (h : (do
          let f ← g.operandField v
          .ok (g.push (.assign t column v) (schema f))) = .ok r) :
        ∃ op schema, op.IsGuarded ∧ g.push op schema = r := by
      obtain ⟨_, -, h⟩ := bind_eq_ok.1 h
      exact ⟨.assign _ _ _, _, trivial, Except.ok.inj h⟩
    split at h
    · split at h
      · obtain ⟨_, -, h⟩ := bind_eq_ok.1 h
        cases h
      · exact added h
    · exact added h
  case apply =>
    obtain ⟨_, -, -, h⟩ := h
    split at h
    · cases h
    · exact ⟨.apply _ _ _, _, trivial, Except.ok.inj h⟩

/-- If no node repeats a column, a further one is the only one that can. -/
theorem distinct_push {op : Op} {schema : Schema} (hd : g.Distinct) :
    (g.push op schema).2.Distinct ↔ schema.names.Nodup := by
  constructor
  · intro h
    exact h _ _ (node?_push.2 (.inr ⟨rfl, rfl⟩))
  · intro h i n hn
    rcases node?_push.1 hn with hn | ⟨rfl, rfl⟩
    · exact hd i n hn
    · exact h

/-- Keys and the other columns have no name in common. -/
theorem nodup_append_filter {keys columns : List String} :
    (keys ++ columns.filter fun c => !keys.contains c).Nodup ↔
      keys.Nodup ∧ (columns.filter fun c => !keys.contains c).Nodup := by
  rw [List.nodup_append']
  refine ⟨fun h => ⟨h.1, h.2.1⟩, fun h => ⟨h.1, h.2, fun c hc hf => ?_⟩⟩
  rw [List.mem_filter] at hf
  simp [hc] at hf

theorem distinct_of_addDescribe {t : NodeId} (hd : g.Distinct) (h : g.addDescribe t = .ok r) :
    r.2.Distinct ↔ ¬(Construction.describe t).Clashes g := by
  simp only [addDescribe, bind_eq_ok] at h
  obtain ⟨n, hn, h⟩ := h
  cases h
  have hn := (table_eq_ok hn).1
  have hnames : (Describe.schema n.schema).names = Describe.labelColumn :: n.columns := by
    simp [Schema.names, Describe.schema, Node.columns]
  rw [distinct_push hd, hnames, List.nodup_cons, and_iff_left (hd t n hn), Construction.Clashes]
  simp [hn]

theorem distinct_of_addGroupProjection {group : NodeId} {columns : List String} (hd : g.Distinct)
    (h : g.addGroupProjection group columns = .ok r) :
    r.2.Distinct ↔ ¬(Construction.groupProjection group columns).Clashes g := by
  simp only [addGroupProjection, bind_eq_ok, node_eq_ok] at h
  obtain ⟨n, hn, h⟩ := h
  split at h
  · rename_i t keys hop
    obtain ⟨schema, hs, h⟩ := bind_eq_ok.1 h
    cases h
    have hclash : (Construction.groupProjection group columns).Clashes g ↔
        (Op.groupProjection group t keys columns).Repeats := by
      constructor
      · rintro ⟨t', keys', ⟨n', hn', hop'⟩, hrep⟩
        obtain rfl := Option.some.inj (hn.symm.trans hn')
        obtain ⟨rfl, rfl⟩ := Op.groupBy.inj (hop.symm.trans hop')
        exact hrep
      · exact fun hrep => ⟨t, keys, ⟨n, hn, hop⟩, hrep⟩
    rw [distinct_push hd, Schema.names_project (lift_eq_ok.1 hs), nodup_append_filter, hclash,
      Op.Repeats, not_not]
  · cases h

theorem distinct_of_addAggregate {source : NodeId} {func : AggFunc} (hd : g.Distinct)
    (h : g.addAggregate source func = .ok r) :
    r.2.Distinct ↔ ¬(Construction.aggregate source func).Clashes g := by
  simp only [addAggregate, refuse_eq_error, error_bind, ite_error_eq_ok, bind_eq_ok,
    node_eq_ok] at h
  obtain ⟨n, hn, ⟨input, keys, chosen⟩, hi, m, hm, -, keyFields, hkeys, fields, hfields, h⟩ := h
  cases h
  have hnames : (Schema.mk (keyFields ++ fields)).names =
      keys ++ (chosen.getD m.schema.names).filter fun c => !keys.contains c := by
    rw [Schema.names, List.map_append, (names_of_keyField hkeys).1,
      (names_of_aggregateField hfields).1]
  have hclash : (Construction.aggregate source func).Clashes g ↔ n.op.Repeats := by
    constructor
    · rintro ⟨n', hn', hrep⟩
      obtain rfl := Option.some.inj (hn.symm.trans hn')
      exact hrep
    · exact fun hrep => ⟨n, hn, hrep⟩
  -- Without a choice the columns are those of the table, and distinct.
  have hall : (m.schema.names.filter fun c => !keys.contains c).Nodup := (hd input m hm).filter _
  rw [distinct_push hd, hnames, nodup_append_filter, hclash]
  unfold aggregationInput at hi
  split at hi
  · rename_i hop
    cases hi
    rw [hop, Op.Repeats, not_not]
    exact and_iff_left hall
  · rename_i hop
    cases hi
    rw [hop, Op.Repeats, not_not]
    rfl
  · cases hi
  · rename_i hgroup hproj hconst
    cases hi
    refine iff_of_true ⟨List.nodup_nil, hall⟩ fun hrep => ?_
    cases hop : n.op
    case groupBy => exact hgroup _ _ hop
    case groupProjection => exact hproj _ _ _ _ hop
    all_goals
      rw [hop] at hrep
      exact hrep

/-- **The node of a call that is accepted repeats a column exactly if the call clashes**, if no node
before it does. -/
theorem distinct_iff_of_call (hg : g.WellFormed) (hd : g.Distinct) (h : c.call g = .ok r) :
    r.2.Distinct ↔ ¬c.Clashes g := by
  by_cases hc : c.IsGuarded
  · obtain ⟨op, schema, hop, rfl⟩ := exists_push_of_isGuarded hc h
    obtain ⟨op', schema', -, hs, hpush⟩ := c.adds hg h
    obtain ⟨rfl, rfl⟩ := push_inj hpush
    refine iff_of_true ((distinct_push hd).2 (hs.nodup hd hop)) fun hclash => ?_
    cases c <;> first | exact hclash | exact hc
  · cases c
    case describe => exact distinct_of_addDescribe hd h
    case groupProjection => exact distinct_of_addGroupProjection hd h
    case aggregate => exact distinct_of_addAggregate hd h
    all_goals exact absurd trivial hc

/-! ## Calls in turn -/

theorem Distinct.of_extends {g' : Graph} (hd : g'.Distinct) (h : g.Extends g') : g.Distinct :=
  fun i n hn => hd i n (h.node hn)

/-- **When all columns are distinct.** After whatever calls no node repeats a column exactly if none of
the calls that were accepted clashed: none asked for the summary statistics of a table with a column
of the label's name, and none for a projection or an aggregate of a grouping that names a key or a chosen
column twice. -/
theorem distinct_afterAll_iff (tag : String) (calls : List Construction) :
    ((empty tag).afterAll calls).Distinct ↔
      ∀ before c rest r, calls = before ++ c :: rest →
        c.call ((empty tag).afterAll before) = .ok r → ¬c.Clashes ((empty tag).afterAll before) := by
  have constructed calls := constructed_afterAll (.empty tag) calls
  constructor
  · rintro hd before c rest r rfl hr
    rw [afterAll_append] at hd
    have hafter : (((empty tag).afterAll before).after c).Distinct :=
      hd.of_extends (extends_afterAll (constructed_after (constructed before) c) rest)
    have hbefore : ((empty tag).afterAll before).Distinct :=
      hafter.of_extends (extends_after (constructed before).wellFormed c)
    rw [after, hr] at hafter
    exact (distinct_iff_of_call (constructed before).wellFormed hbefore hr).1 hafter
  · induction calls using List.reverseRecOn with
    | nil => exact fun _ i n hn => by simp [afterAll, empty, node?] at hn
    | append_singleton calls c ih =>
      intro h
      have hd := ih fun before c' rest r hsplit hr =>
        h before c' (rest ++ [c]) r (by rw [hsplit]; simp) hr
      rw [afterAll_append]
      change (((empty tag).afterAll calls).after c).Distinct
      rw [after]
      cases hr : c.call ((empty tag).afterAll calls) with
      | error e => exact hd
      | ok r =>
        exact (distinct_iff_of_call (constructed calls).wellFormed hd hr).2 (h calls c [] r rfl hr)

/-- The statistics of a table with a column called `statistic` have two of this name. -/
example : (((empty "s").afterAll
    [.source ⟨[⟨"statistic", .int64, true⟩]⟩, .describe 0]).node? 1).map (·.columns) =
      some ["statistic", "statistic"] := rfl

end Graph
end LazyQuery
