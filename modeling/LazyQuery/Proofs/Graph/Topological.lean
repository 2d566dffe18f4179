import LazyQuery.Proofs.Graph.Construction
import LazyQuery.Proofs.Graph.Order

/-!
# Exactness and verification of dependency orders

`dependencyOrder_exact` says of every graph that constructors build what the order of a node lists and
what stands before what in it. In particular no walk through such a graph comes back to a node that it is
visiting.

The verification of an order asks for more than that: no listed node may stand before an input of its
own. `Overtakes` is the relation between two such nodes. What an order puts after its inputs are the
nodes that had to be visited. A transferable node is listed where it is met, and if the walk comes to
its inputs later on another way, it has overtaken them. `checkOrder_dependencyOrder` says that this is
the only thing that the verification can find.
-/

set_option autoImplicit false

namespace LazyQuery
namespace Graph

variable {g : Graph} {b : Backend} {v : View}

/-! ## Exactness -/

/-- **Dependency orders are exact.** There is one, without repetitions and without the node itself. It
lists the ancestors that are not materialized and that a walk meets, which goes on behind those only that
are neither materialized nor transferable. The inputs of a listed node that is not transferable are
materialized or stand before it, and those of the node itself are materialized or listed. -/
theorem dependencyOrder_exact (hg : g.Constructed) {id : NodeId} {n : Node}
    (hn : g.node? id = some n) (b : Backend) (v : View) :
    ∃ order, g.dependencyOrder id b v = .ok order ∧ order.Nodup ∧ id ∉ order ∧
      (∀ d, d ∈ order ↔ g.Required b v id d ∧ v.materialized b d = false) ∧
      (∀ before a after m, order = before ++ a :: after → v.transferable b a = false →
        g.node? a = some m → ∀ d ∈ m.deps b, v.materialized b d = true ∨ d ∈ before) ∧
      ∀ d ∈ n.deps b, v.materialized b d = true ∨ d ∈ order := by
  obtain ⟨order, horder, ho⟩ := dependencyOrder_spec hg.wellFormed hn b v
  refine ⟨order, horder, ho.nodup, fun hid => ?_, ho.mem_iff, ?_, fun d hd => ?_⟩
  · exact Nat.lt_irrefl id (ho.lt hg.wellFormed hid)
  · intro before a after m hsplit ht hm d hd
    exact or_iff_not_imp_left.2 fun h => ho.closed hsplit ht hm d hd (Bool.eq_false_iff.2 h)
  · exact or_iff_not_imp_left.2 fun h => ho.input hn hd (Bool.eq_false_iff.2 h)

/-- A base table, a limit of it, a limit of that, and the union of the two limits. -/
def sharedLimits : Graph :=
  let schema : Schema := ⟨[⟨"k", .int64, true⟩]⟩
  ⟨"s", #[⟨0, "ts_0", .source, schema⟩, ⟨1, "ts_1", .limit 0 5, schema⟩,
    ⟨2, "ts_2", .limit 1 4, schema⟩, ⟨3, "ts_3", .union [2, 1], schema⟩], #[[1], [2, 3], [3], []]⟩

theorem constructed_sharedLimits : sharedLimits.Constructed :=
  .add (r := (3, sharedLimits)) (.add (.add (.add (.empty "s") (.source ⟨[⟨"k", .int64, true⟩]⟩) rfl)
    (.limit 0 5) rfl) (.limit 1 4) rfl) (.union [2, 1]) rfl

/-- The base table is in the store, and the second limit in memory. -/
def secondInMemory : View := ⟨(· == 2), (· == 0), fun _ => false, fun _ => none⟩

theorem dependencyOrder_sharedLimits :
    sharedLimits.dependencyOrder 3 .relational secondInMemory = .ok [2, 1] := rfl

/-- To compute the union in the store, the second limit is loaded and the first is computed. -/
theorem dependencyOrder_exact_sharedLimits : sharedLimits.Constructed ∧ ∀ d,
    (sharedLimits.Required .relational secondInMemory 3 d ∧
      secondInMemory.materialized .relational d = false) ↔ d = 2 ∨ d = 1 := by
  refine ⟨constructed_sharedLimits, fun d => ?_⟩
  obtain ⟨order, horder, -, -, hmem, -⟩ :=
    @dependencyOrder_exact _ constructed_sharedLimits 3 _ rfl .relational secondInMemory
  rw [dependencyOrder_sharedLimits, Except.ok.injEq] at horder
  subst horder
  rw [← hmem, List.mem_pair]

/-! ## Verification -/

/-- In the order, `a` stands before its own input `d`. -/
def Overtakes (g : Graph) (b : Backend) (order : List NodeId) (a d : NodeId) : Prop :=
  ∃ before after n, order = before ++ a :: after ∧ g.node? a = some n ∧ d ∈ n.deps b ∧ d ∈ after

/-- The inputs of nodes are checked one node after the other: all those that are listed stand before
it, or one does not and is named. -/
theorem checkInputs_spec (listed before : List NodeId) {rest : List NodeId}
    (hnodes : ∀ a ∈ rest, ∃ n, g.node? a = some n) :
    match g.checkInputs b listed before rest with
    | .ok _ => ∀ front a back n, rest = front ++ a :: back → g.node? a = some n →
        ∀ d ∈ n.deps b, d ∈ listed → d ∈ before ++ front
    | .error fault => ∃ front a back n d, rest = front ++ a :: back ∧ g.node? a = some n ∧
        d ∈ n.deps b ∧ d ∈ listed ∧ d ∉ before ++ front ∧ fault = .unsatisfied d n.name := by
  induction rest generalizing before with
  | nil => simp [checkInputs]
  | cons a rest ih =>
    obtain ⟨n, hn⟩ := hnodes a (by simp)
    have ih := ih (before ++ [a]) fun c hc => hnodes c (by simp [hc])
    rw [checkInputs, hn]
    dsimp only
    cases hfind : (n.deps b).find? fun d => listed.contains d && !before.contains d with
    | some d =>
      have hd := List.find?_some hfind
      simp only [Bool.and_eq_true, List.contains_iff_mem, Bool.not_eq_true',
        ← Bool.not_eq_true] at hd
      exact ⟨[], a, rest, n, d, rfl, hn, List.mem_of_find?_eq_some hfind, hd.1,
        by rw [List.append_nil]; exact hd.2, rfl⟩
    | none =>
      have hinputs : ∀ d ∈ n.deps b, d ∈ listed → d ∈ before := by
        simpa using List.find?_eq_none.1 hfind
      dsimp only
      cases hcheck : g.checkInputs b listed (before ++ [a]) rest with
      | ok _ =>
        rw [hcheck] at ih
        rintro (_ | ⟨c, front⟩) e back m hsplit hm d hd hlisted
        · cases hsplit
          rw [hn, Option.some.injEq] at hm
          subst hm
          rw [List.append_nil]
          exact hinputs d hd hlisted
        · cases hsplit
          have := ih front e back m rfl hm d hd hlisted
          rwa [List.append_assoc] at this
      | error fault =>
        rw [hcheck] at ih
        obtain ⟨front, c, back, m, d, rfl, hm, hd, hlisted, hnot, hfault⟩ := ih
        refine ⟨a :: front, c, back, m, d, rfl, hm, hd, hlisted, ?_, hfault⟩
        rwa [List.append_assoc] at hnot

/-- The verification of an order without repetitions finds the nodes that overtake inputs. -/
theorem checkOrder_spec (hg : g.WellFormed) {order : List NodeId} (hnodup : order.Nodup)
    (hnodes : ∀ a ∈ order, ∃ n, g.node? a = some n) :
    match g.checkOrder order b with
    | .ok _ => ∀ a d, ¬g.Overtakes b order a d
    | .error fault => ∃ a d n, g.Overtakes b order a d ∧ g.node? a = some n ∧
        fault = .unsatisfied d n.name := by
  have hspec := checkInputs_spec (b := b) order [] hnodes
  have hcheck : g.checkOrder order b = g.checkInputs b order [] order := by
    rw [checkOrder, if_neg (not_not.2 hnodup)]
  rw [hcheck]
  cases h : g.checkInputs b order [] order with
  | ok _ =>
    rw [h] at hspec
    rintro a d ⟨before, after, n, rfl, hn, hd, hafter⟩
    have hbefore := hspec before a after n rfl hn d hd (by simp [hafter])
    rw [List.nodup_append] at hnodup
    exact hnodup.2.2 d hbefore d (List.mem_cons_of_mem a hafter) rfl
  | error fault =>
    rw [h] at hspec
    obtain ⟨front, a, back, n, d, rfl, hn, hd, hlisted, hnot, hfault⟩ := hspec
    refine ⟨a, d, n, ⟨front, back, n, rfl, hn, hd, ?_⟩, hn, hfault⟩
    have hne : d ≠ a := Nat.ne_of_lt (hg.dep_lt hn hd)
    rw [List.mem_append, List.mem_cons] at hlisted
    exact (hlisted.resolve_left hnot).resolve_left hne

/-- What had to be visited does not overtake its inputs. -/
theorem IsOrderOf.transferable_of_overtakes {id a d : NodeId} {order : List NodeId}
    (ho : g.IsOrderOf b v id order) (h : g.Overtakes b order a d) : v.transferable b a = true := by
  obtain ⟨before, after, n, rfl, hn, hd, hafter⟩ := h
  refine Bool.of_not_eq_false fun ht => ?_
  have hm := ((ho.mem_iff d).1 (by simp [hafter])).2
  have hbefore := ho.closed rfl ht hn d hd hm
  have hnodup := ho.nodup
  rw [List.nodup_append] at hnodup
  exact hnodup.2.2 d hbefore d (List.mem_cons_of_mem a hafter) rfl

/-- **When the order of a node passes the verification.** It does exactly if no transferable node has
overtaken one of its inputs. Nothing else is ever found: what is reported is such a node and such an
input of it. -/
theorem checkOrder_dependencyOrder (hg : g.Constructed) {id : NodeId} {n : Node}
    (hn : g.node? id = some n) (b : Backend) (v : View) :
    ∃ order, g.dependencyOrder id b v = .ok order ∧
      (g.checkOrder order b = .ok () ↔
        ∀ a, v.transferable b a = true → ∀ d, ¬g.Overtakes b order a d) ∧
      ∀ fault, g.checkOrder order b = .error fault → ∃ a d m, v.transferable b a = true ∧
        g.Overtakes b order a d ∧ g.node? a = some m ∧ fault = .unsatisfied d m.name := by
  obtain ⟨order, horder, ho⟩ := dependencyOrder_spec hg.wellFormed hn b v
  have hspec := checkOrder_spec (b := b) hg.wellFormed ho.nodup fun a ha =>
    ((ho.mem_iff a).1 ha).1.exists_node hg.wellFormed
  refine ⟨order, horder, ?_⟩
  cases hcheck : g.checkOrder order b with
  | ok _ =>
    rw [hcheck] at hspec
    exact ⟨⟨fun _ a _ => hspec a, fun _ => rfl⟩, nofun⟩
  | error fault =>
    rw [hcheck] at hspec
    obtain ⟨a, d, m, hover, hm, hfault⟩ := hspec
    have ht := ho.transferable_of_overtakes hover
    refine ⟨⟨nofun, fun h => absurd hover (h a ht d)⟩, fun fault' h => ?_⟩
    cases h
    exact ⟨a, d, m, ht, hover, hm, hfault⟩

/-- The second limit overtakes the first, so that the order of the union is rejected. -/
theorem checkOrder_dependencyOrder_sharedLimits : sharedLimits.Constructed ∧
    ∃ order, sharedLimits.dependencyOrder 3 .relational secondInMemory = .ok order ∧
      sharedLimits.checkOrder order .relational ≠ .ok () := by
  refine ⟨constructed_sharedLimits, ?_⟩
  obtain ⟨order, horder, haccepted, -⟩ :=
    @checkOrder_dependencyOrder _ constructed_sharedLimits 3 _ rfl .relational secondInMemory
  refine ⟨order, horder, fun hcheck => ?_⟩
  rw [dependencyOrder_sharedLimits, Except.ok.injEq] at horder
  subst horder
  exact haccepted.1 hcheck 2 rfl 1 ⟨[], [1], _, rfl, rfl, by decide, by decide⟩

end Graph
end LazyQuery
