import LazyQuery.Proofs.Graph.Construction
import LazyQuery.Proofs.Sql.Compile

/-!
# What the statement of a node reads

The statement that would produce a node names the results of ancestors that have no table, and each of
them, like the statement itself, reads tables and results named before. A walk through the ancestors
stops at those in memory, though: they are named, but what they read is not.

`readsOnly_iff_of_namedResults` goes through the named results one by one, and `query_readsOnly_iff` says
when the statement is self-contained: when what is in memory reads what has a table, or what is named
anyway.
-/

set_option autoImplicit false

namespace LazyQuery

open Sql

namespace Graph

variable {g : Graph} {v : View}

/-- What the node works on is in the store, or among the nodes given. -/
def ReadsFrom (v : View) (given : List NodeId) (n : Node) : Prop :=
  ∀ t ∈ n.op.tables, v.relational t = true ∨ t ∈ given

/-- Each node of the list reads from the store and from those before it. Groupings read nothing. -/
def ReadsInOrder (g : Graph) (v : View) (before : List NodeId) : List NodeId → Prop
  | [] => True
  | d :: rest =>
    (∀ m, g.node? d = some m → m.op.isContainer = false → ReadsFrom v before m) ∧
      g.ReadsInOrder v (before ++ [d]) rest

theorem readsInOrder_iff {before rest : List NodeId} : g.ReadsInOrder v before rest ↔
    ∀ front d back m, rest = front ++ d :: back → g.node? d = some m → m.op.isContainer = false →
      ReadsFrom v (before ++ front) m := by
  induction rest generalizing before with
  | nil => simp [ReadsInOrder]
  | cons a rest ih =>
    rw [ReadsInOrder, ih]
    constructor
    · rintro ⟨ha, hrest⟩ (_ | ⟨b, front⟩) d back m h hm hc
      · cases h
        rw [List.append_nil]
        exact ha m hm hc
      · cases h
        rw [← List.singleton_append, ← List.append_assoc]
        exact hrest front d back m rfl hm hc
    · refine fun h => ⟨fun m hm hc => ?_, fun front d back m hrest hm hc => ?_⟩
      · have := h [] a rest m rfl hm hc
        rwa [List.append_nil] at this
      · have := h (a :: front) d back m (by rw [hrest]; rfl) hm hc
        rwa [← List.singleton_append, ← List.append_assoc] at this

/-- Named results read nothing but tables and earlier ones exactly if their nodes do. -/
theorem readsOnly_iff_of_namedResults (hg : g.WellFormed) {n : Node} {id : NodeId}
    (hn : g.node? id = some n) (hst : n.op.hasStatement = true) {body : Compound}
    (hbody : g.compound id = .ok body) {rest before : List NodeId}
    {named : List (Option (String × Compound))} (hnamed : rest.mapM (g.namedResult v) = .ok named)
    (hrest : ∀ d ∈ rest, v.relational d = false) {isKnown : String → Bool}
    (hknown : ∀ t, g.Has (·.isTable) t →
      (isKnown (g.tableName t) = true ↔ v.relational t = true ∨ t ∈ before)) :
    readsOnly isKnown (named.filterMap fun r => r) body = true ↔
      g.ReadsInOrder v before rest ∧ ReadsFrom v (before ++ rest) n := by
  -- A statement reads the tables of its node.
  have reads {isKnown : String → Bool} {given : List NodeId} {d : NodeId} {m : Node} {c : Compound}
      (hm : g.node? d = some m) (hst : m.op.hasStatement = true) (hc : g.compound d = .ok c)
      (hknown : ∀ t, g.Has (·.isTable) t →
        (isKnown (g.tableName t) = true ↔ v.relational t = true ∨ t ∈ given)) :
      c.names.all isKnown = true ↔ ReadsFrom v given m := by
    obtain ⟨c', hc', hnames⟩ := compound_spec hg hm hst
    rw [hc, Except.ok.injEq] at hc'
    subst hc'
    rw [hnames, List.all_map, List.all_eq_true]
    exact forall₂_congr fun t ht => hknown t ((hg.linked hm).has_table hst ht)
  induction rest generalizing before isKnown named with
  | nil =>
    cases hnamed
    rw [List.append_nil, ReadsInOrder, true_and]
    exact reads hn hst hbody hknown
  | cons a rest ih =>
    rw [List.mapM_cons] at hnamed
    obtain ⟨r, hr, hnamed⟩ := bind_eq_ok.1 hnamed
    obtain ⟨named, hmap, h⟩ := bind_eq_ok.1 hnamed
    cases h
    obtain ⟨m, hm, -⟩ := bind_eq_ok.1 hr
    have hm := node_eq_ok.1 hm
    rw [namedResult_eq hm, hrest a (by simp), Bool.or_false] at hr
    have hrest := fun d hd => hrest d (List.mem_cons_of_mem a hd)
    cases hc : m.op.isContainer with
    | true =>
      rw [hc, if_pos rfl] at hr
      cases hr
      have hnext : ∀ t, g.Has (·.isTable) t →
          (isKnown (g.tableName t) = true ↔ v.relational t = true ∨ t ∈ before ++ [a]) := by
        intro t ht
        have hne : t ≠ a := by
          rintro rfl
          obtain ⟨m', hm', ht⟩ := ht
          rw [hm, Option.some.injEq] at hm'
          subst hm'
          rw [Op.isContainer_of_isTable ht] at hc
          cases hc
        simp [hknown t ht, hne]
      refine (ih hmap hrest hnext).trans ?_
      rw [ReadsInOrder, List.append_assoc]
      simp [hm, hc]
    | false =>
      rw [hc, if_neg Bool.false_ne_true] at hr
      cases hs : m.op.hasStatement with
      | false => simp [hs] at hr
      | true =>
        rw [hs] at hr
        obtain ⟨c, hcomp, hr⟩ : ∃ c, g.compound a = .ok c ∧ r = some (m.name, c) := by
          cases hcomp : g.compound a with
          | error e => simp [hcomp, Except.map] at hr
          | ok c => exact ⟨c, rfl, by simpa [hcomp, Except.map, eq_comm] using hr⟩
        subst hr
        have hnext : ∀ t, g.Has (·.isTable) t →
            ((fun x => sameName x m.name || isKnown x) (g.tableName t) = true ↔
              v.relational t = true ∨ t ∈ before ++ [a]) := by
          intro t ht
          dsimp only
          rw [Bool.or_eq_true, hknown t ht, name_of_node? hg hm, sameName_tableName, List.mem_append,
            List.mem_singleton]
          tauto
        change readsOnly isKnown ((m.name, c) :: named.filterMap fun r => r) body = true ↔ _
        rw [readsOnly, Bool.and_eq_true, reads hm hs hcomp hknown]
        refine (and_congr_right' (ih hmap hrest hnext)).trans ?_
        rw [ReadsInOrder, List.append_assoc, ← and_assoc]
        simp [hm, hc]

/-- **When the statement of a node is self-contained.** Every table that it reads has a table in the
store or is an earlier named result exactly if this holds of the nodes in memory that it names: what
other nodes read is named before them, but the walk through the ancestors does not go on behind a node
in memory. -/
theorem query_readsOnly_iff (hg : g.Constructed) (hv : g.SkipsGroupings v) {id : NodeId} {n : Node}
    (hn : g.node? id = some n) (hst : n.op.hasStatement = true) {q : Query}
    (hq : g.query id v = .ok q) :
    readsOnly (g.isStored v) q.named q.body = true ↔
      ∃ order, g.dependencyOrder id .relational v = .ok order ∧
        ∀ before d after m, order = before ++ d :: after → v.inMemory d = true →
          g.node? d = some m → ReadsFrom v before m := by
  have hg := hg.wellFormed
  obtain ⟨order, horder, ho⟩ := dependencyOrder_spec hg hn .relational v
  rw [query, horder, ok_bind] at hq
  obtain ⟨named, hnamed, hq⟩ := bind_eq_ok.1 hq
  obtain ⟨body, hbody, hq⟩ := bind_eq_ok.1 hq
  cases hq
  have hknown : ∀ t, g.Has (·.isTable) t →
      (g.isStored v (g.tableName t) = true ↔ v.relational t = true ∨ t ∈ ([] : List NodeId)) := by
    intro t ht
    rw [isStored_tableName ht.lt_size]
    simp
  rw [readsOnly_iff_of_namedResults hg hn hst hbody hnamed
    (fun d hd => ((ho.mem_iff d).1 hd).2) hknown, readsInOrder_iff]
  constructor
  · rintro ⟨hall, -⟩
    refine ⟨order, horder, fun before d after m hsplit hi hm => hall before d after m hsplit hm ?_⟩
    refine Bool.eq_false_iff.2 fun hc => ?_
    rw [(hv hm hc).1] at hi
    cases hi
  · rintro ⟨order', horder', hall⟩
    rw [horder, Except.ok.injEq] at horder'
    subst horder'
    refine ⟨fun before d after m hsplit hm hc => ?_, fun t ht => ?_⟩
    · cases hi : v.inMemory d with
      | true => exact hall before d after m hsplit hi hm
      | false =>
        intro t ht
        refine or_iff_not_imp_left.2 fun hr => ?_
        exact ho.before hsplit hi (required_of_mem_tables hg hv hm ht) (Bool.eq_false_iff.2 hr)
    · refine or_iff_not_imp_left.2 fun hr => ?_
      exact (ho.mem_iff t).2 ⟨required_of_mem_tables hg hv hn ht, Bool.eq_false_iff.2 hr⟩

/-- A base table and limits one of the other. -/
def limits : Graph :=
  let schema : Schema := ⟨[⟨"k", .int64, true⟩]⟩
  ⟨"s", #[⟨0, "ts_0", .source, schema⟩, ⟨1, "ts_1", .limit 0 5, schema⟩,
    ⟨2, "ts_2", .limit 1 4, schema⟩, ⟨3, "ts_3", .limit 2 3, schema⟩], #[[1], [2], [3], []]⟩

theorem constructed_limits : limits.Constructed :=
  .add (r := (3, limits)) (.add (.add (.add (.empty "s") (.source ⟨[⟨"k", .int64, true⟩]⟩) rfl)
    (.limit 0 5) rfl) (.limit 1 4) rfl) (.limit 2 3) rfl

/-- Where the second limit is in memory and only the base table is in the store, the statement of the
third names the second, which reads the first. -/
theorem query_readsOnly_limits : ∃ (v : View) (q : Query), limits.SkipsGroupings v ∧
    limits.query 3 v = .ok q ∧ readsOnly (limits.isStored v) q.named q.body = false := by
  let v : View := ⟨(· == 2), (· == 0), fun _ => false, fun _ => none⟩
  have hskip : limits.SkipsGroupings v := by
    intro i n hn hc
    rcases i with _ | _ | _ | _ | i <;> simp [node?, limits] at hn <;> subst hn <;> cases hc
  have hn : limits.node? 3 = some _ := rfl
  obtain ⟨q, hq⟩ : ∃ q, limits.query 3 v = .ok q := ⟨_, rfl⟩
  refine ⟨v, q, hskip, hq, Bool.eq_false_iff.2 fun h => ?_⟩
  obtain ⟨order, horder, hall⟩ := (query_readsOnly_iff constructed_limits hskip hn rfl hq).1 h
  cases horder
  have := hall [] 2 [] _ rfl rfl rfl 1 (by decide)
  revert this
  decide

end Graph
end LazyQuery
