import LazyQuery.Graph.Resolve
import LazyQuery.Proofs.Graph.WellFormed
import Mathlib.Data.List.Induction

/-!
# What a dependency order lists

`Graph.Required g b v id` are the ancestors that a walk from `id` meets: the inputs of `id`, and those
of every ancestor it meets that is neither materialized nor transferable.

* `IsOrderOf` says that a list holds the required ancestors that are not materialized, without
  repetitions and each after those of its own inputs that had to be visited.
* `dependencyOrder_spec` says that in a well-formed graph `dependencyOrder` yields such a list. In
  particular it meets no cycle.
* `computable_of_check` says what a check for computability that succeeds has found out.

The walk is an induction on fuel. What it carries is `Walk.Sound`: the nodes listed are those visited
that are not materialized, and a node is listed after its inputs.
-/

set_option autoImplicit false

namespace LazyQuery
namespace Graph

variable {g : Graph} {b : Backend} {v : View}

/-- The ancestors of `id` that a walk meets. -/
inductive Required (g : Graph) (b : Backend) (v : View) (id : NodeId) : NodeId → Prop
  | input {n : Node} {d : NodeId} (hn : g.node? id = some n) (hd : d ∈ n.deps b) :
      Required g b v id d
  | step {c d : NodeId} {n : Node} (h : Required g b v id c) (hm : v.materialized b c = false)
      (ht : v.transferable b c = false) (hn : g.node? c = some n) (hd : d ∈ n.deps b) :
      Required g b v id d

theorem Required.lt (hg : g.WellFormed) {id d : NodeId} (h : g.Required b v id d) : d < id := by
  induction h with
  | input hn hd => exact hg.dep_lt hn hd
  | step _ _ _ hn hd ih => exact Nat.lt_trans (hg.dep_lt hn hd) ih

theorem Required.exists_node (hg : g.WellFormed) {id d : NodeId} (h : g.Required b v id d) :
    ∃ n, g.node? d = some n := by
  have hid : ∃ n, g.node? id = some n := by
    induction h with
    | input hn => exact ⟨_, hn⟩
    | step _ _ _ _ _ ih => exact ih
  obtain ⟨n, hn⟩ := hid
  exact node?_isSome (Nat.lt_trans (h.lt hg) (lt_size_of_node? hn))

/-- The nodes that a node hangs on: its inputs, and what they hang on. -/
inductive DependsOn (g : Graph) (id : NodeId) : NodeId → Prop
  | input {n : Node} {d : NodeId} (hn : g.node? id = some n) (hd : d ∈ n.op.inputs) :
      DependsOn g id d
  | step {c d : NodeId} {n : Node} (h : DependsOn g id c) (hn : g.node? c = some n)
      (hd : d ∈ n.op.inputs) : DependsOn g id d

namespace DependsOn

variable {id c d : NodeId}

theorem lt (hg : g.WellFormed) (h : g.DependsOn id d) : d < id := by
  induction h with
  | input hn hd => exact hg.input_lt hn _ hd
  | step _ hn hd ih => exact Nat.lt_trans (hg.input_lt hn _ hd) ih

theorem trans (h : g.DependsOn id c) (h' : g.DependsOn c d) : g.DependsOn id d := by
  induction h' with
  | input hn hd => exact .step h hn hd
  | step _ hn hd ih => exact .step ih hn hd

theorem mono {g' : Graph} (h : g.DependsOn id d) (hg : g.Extends g') : g'.DependsOn id d := by
  induction h with
  | input hn hd => exact .input (hg.node hn) hd
  | step _ hn hd ih => exact .step ih (hg.node hn) hd

end DependsOn

/-- A walk meets nothing else. -/
theorem Required.dependsOn {id d : NodeId} (h : g.Required b v id d) : g.DependsOn id d := by
  have dep {n : Node} {d : NodeId} (hd : d ∈ n.deps b) : d ∈ n.op.inputs := by
    cases b with
    | inMemory =>
      exact (List.mem_append.1 hd).elim Op.mem_inputs_of_mem_sources Op.mem_inputs_of_mem_evalSources
    | relational => exact Op.mem_inputs_of_mem_sources hd
  induction h with
  | input hn hd => exact .input hn (dep hd)
  | step _ _ _ hn hd ih => exact .step ih hn (dep hd)

/-- A walk through the store comes to tables and groupings only. -/
theorem Required.ne_constant (hg : g.WellFormed) {id d : NodeId} (h : g.Required .relational v id d)
    {n : Node} (hn : g.node? d = some n) (value : Scalar) : n.op ≠ .constant value := by
  obtain ⟨c, m, hm, hd⟩ : ∃ c m, g.node? c = some m ∧ d ∈ m.op.sources := by
    cases h with
    | input hm hd => exact ⟨_, _, hm, hd⟩
    | step _ _ _ hm hd => exact ⟨_, _, hm, hd⟩
  obtain ⟨n', hn', hne⟩ := (hg.linked hm).source_ne_constant hd
  obtain rfl := Option.some.inj (hn.symm.trans hn')
  exact hne value

/-- With more that is materialized or transferable, and nothing less, a walk meets no more. -/
theorem Required.mono {v' : View} {id d : NodeId} (h : g.Required b v' id d)
    (hm : ∀ c, v.materialized b c = true → v'.materialized b c = true)
    (ht : ∀ c, v.transferable b c = true → v'.materialized b c = true ∨ v'.transferable b c = true) :
    g.Required b v id d := by
  induction h with
  | input hn hd => exact .input hn hd
  | @step c d n _ hmc htc hn hd ih =>
    refine .step ih ?_ ?_ hn hd
    · exact Bool.eq_false_iff.2 fun h => by simp [hm c h] at hmc
    · refine Bool.eq_false_iff.2 fun h => ?_
      rcases ht c h with h | h
      · simp [h] at hmc
      · simp [h] at htc

theorem Required.trans {c d id : NodeId} (h : g.Required b v id c) (hm : v.materialized b c = false)
    (ht : v.transferable b c = false) (h' : g.Required b v c d) : g.Required b v id d := by
  induction h' with
  | input hn hd => exact .step h hm ht hn hd
  | step _ hmc htc hn hd ih => exact .step ih hmc htc hn hd

/-- No grouping has a result, as groupings never do. -/
def SkipsGroupings (g : Graph) (v : View) : Prop :=
  ∀ {i n}, g.node? i = some n → n.op.isContainer = true →
    v.inMemory i = false ∧ v.relational i = false

theorem SkipsGroupings.walked (hv : g.SkipsGroupings v) {i : NodeId} {n : Node}
    (hn : g.node? i = some n) (hc : n.op.isContainer = true) :
    v.materialized b i = false ∧ v.transferable b i = false := by
  obtain ⟨hm, hr⟩ := hv hn hc
  cases b <;> simp [View.materialized, View.transferable, hm, hr]

/-- A walk meets the tables that an operation works on, also behind groupings. -/
theorem required_of_mem_tables (hg : g.WellFormed) (hv : g.SkipsGroupings v) {id d : NodeId}
    {n : Node} (hn : g.node? id = some n) (hd : d ∈ n.op.tables) : g.Required b v id d := by
  have ofSource : ∀ {i m e}, g.node? i = some m → e ∈ m.op.sources → g.Required b v i e := by
    intro i m e hm he
    refine .input hm ?_
    cases b with
    | inMemory => exact List.mem_append_left _ he
    | relational => exact he
  have ofGrouping : ∀ {i m e}, g.node? i = some m → m.op.isContainer = true → e ∈ m.op.sources →
      g.Required b v id i → g.Required b v id e := by
    intro i m e hm hc he hi
    obtain ⟨hmi, hti⟩ := hv.walked hm hc
    exact hi.trans hmi hti (ofSource hm he)
  have hl := hg.linked hn
  obtain ⟨i, name, op, schema⟩ := n
  cases op
  case aggregator s func input keys columns =>
    rw [Op.tables, List.mem_singleton] at hd
    subst hd
    have hs : g.Required b v id s := ofSource hn (List.mem_singleton.2 rfl)
    obtain ⟨-, ⟨rfl, -⟩ | ⟨m, hm, hgroup⟩⟩ := hl
    · exact hs
    · obtain ⟨j, mname, mop, mschema⟩ := m
      have hlm := hg.linked hm
      cases mop <;> simp only [Op.IsGroupingOf] at hgroup
      case groupBy t ks =>
        obtain ⟨rfl, rfl⟩ := hgroup
        exact ofGrouping hm rfl (List.mem_singleton.2 rfl) hs
      case groupProjection group t ks cs =>
        obtain ⟨rfl, rfl⟩ := hgroup
        obtain ⟨-, m', hm', hop⟩ := hlm
        have hgr := ofGrouping hm rfl (List.mem_singleton.2 rfl) hs
        exact ofGrouping hm' (by rw [hop]; rfl) (by rw [hop]; exact List.mem_singleton.2 rfl) hgr
  all_goals exact ofSource hn hd

/-- A walk in memory meets all nodes that an evaluation reads. -/
theorem required_of_mem_reads (hg : g.WellFormed) (hv : g.SkipsGroupings v) {id d : NodeId}
    {n : Node} (hn : g.node? id = some n) (hd : d ∈ n.op.reads) : g.Required .inMemory v id d := by
  rcases List.mem_append.1 hd with hd | hd
  · exact required_of_mem_tables hg hv hn hd
  · exact .input hn (List.mem_append_right _ hd)

/-- The list holds the required ancestors that are not materialized, each after its inputs. -/
structure IsOrderOf (g : Graph) (b : Backend) (v : View) (id : NodeId) (order : List NodeId) :
    Prop where
  nodup : order.Nodup
  mem_iff : ∀ d, d ∈ order ↔ g.Required b v id d ∧ v.materialized b d = false
  closed : ∀ {before : List NodeId} {a : NodeId} {after : List NodeId} {n : Node},
    order = before ++ a :: after → v.transferable b a = false → g.node? a = some n →
      ∀ d ∈ n.deps b, v.materialized b d = false → d ∈ before

end Graph

/-! ## The walk -/

/-- What a walk keeps: `P` holds of the nodes visited, those that are not materialized are listed,
and a node is listed after its inputs. -/
structure Walk.Sound (g : Graph) (b : Backend) (v : View) (P : NodeId → Prop) (w : Walk) :
    Prop where
  seen : ∀ a ∈ w.seen, P a
  mem_iff : ∀ a, a ∈ w.order ↔ a ∈ w.seen ∧ v.materialized b a = false
  nodup : w.order.Nodup
  closed : ∀ {before : List NodeId} {a : NodeId} {after : List NodeId} {n : Node},
    w.order = before ++ a :: after → v.transferable b a = false → g.node? a = some n →
      ∀ d ∈ n.deps b, v.materialized b d = false → d ∈ before

namespace Walk

variable {g : Graph} {b : Backend} {v : View} {P : NodeId → Prop} {w w' : Walk} {id : NodeId}

theorem Sound.mark (h : w.Sound g b v P) (hid : P id) (hm : v.materialized b id = true) :
    (w.mark id).Sound g b v P where
  seen a ha := by
    rcases List.mem_cons.1 ha with rfl | ha
    · exact hid
    · exact h.seen a ha
  mem_iff a := by
    rw [Walk.mark, List.mem_cons, h.mem_iff]
    refine and_congr_left fun hn => ⟨.inr, fun ha => ha.resolve_left ?_⟩
    rintro rfl
    simp [hm] at hn
  nodup := h.nodup
  closed := h.closed

/-- Where a list ends in `x`, what stands before an element of it is the front or a part of it. -/
theorem split_snoc {α : Type} {xs before after : List α} {x a : α}
    (h : xs ++ [x] = before ++ a :: after) :
    (before = xs ∧ a = x) ∨ ∃ after', xs = before ++ a :: after' := by
  rcases List.eq_nil_or_concat after with rfl | ⟨after', y, rfl⟩
  · exact .inl (by simpa [eq_comm] using List.append_inj' h rfl)
  · refine .inr ⟨after', ?_⟩
    rw [List.concat_eq_append, ← List.cons_append, ← List.append_assoc] at h
    exact (List.append_inj' h rfl).1

theorem Sound.list (h : w.Sound g b v P) (hid : P id) (hm : v.materialized b id = false)
    (hs : id ∉ w.seen)
    (hd : v.transferable b id = false → ∀ n, g.node? id = some n → ∀ d ∈ n.deps b, d ∈ w.seen) :
    (w.list id).Sound g b v P where
  seen a ha := by
    rcases List.mem_cons.1 ha with rfl | ha
    · exact hid
    · exact h.seen a ha
  mem_iff a := by
    rw [Walk.list, List.mem_append, List.mem_singleton, List.mem_cons, h.mem_iff]
    constructor
    · rintro (⟨ha, hn⟩ | rfl)
      · exact ⟨.inr ha, hn⟩
      · exact ⟨.inl rfl, hm⟩
    · rintro ⟨rfl | ha, hn⟩
      · exact .inr rfl
      · exact .inl ⟨ha, hn⟩
  nodup := by
    refine List.nodup_append.2 ⟨h.nodup, by simp, fun a ha c hc => ?_⟩
    rw [List.mem_singleton.1 hc]
    rintro rfl
    exact hs ((h.mem_iff a).1 ha).1
  closed := by
    intro before a after n ho ht hn d hdn hdm
    rcases split_snoc ho with ⟨rfl, rfl⟩ | ⟨after', ho⟩
    · exact (h.mem_iff d).2 ⟨hd ht n hn d hdn, hdm⟩
    · exact h.closed ho ht hn d hdn hdm

/-- What a visit of `id` does to a walk: it goes on soundly, `id` is visited in the end, and what is
visited newly is `id` or comes before it. -/
structure Visits (g : Graph) (b : Backend) (v : View) (P : NodeId → Prop) (w w' : Walk)
    (visited : NodeId → Prop) (bound : Nat) : Prop where
  sound : w'.Sound g b v P
  visited : ∀ a, visited a → a ∈ w'.seen
  grows : ∀ a ∈ w.seen, a ∈ w'.seen
  bounded : ∀ a ∈ w'.seen, a ∈ w.seen ∨ a < bound

end Walk

namespace Graph

variable {g : Graph} {b : Backend} {v : View} {P : NodeId → Prop}

/-- Visits one after the other, if each of them goes well. -/
theorem visitAll_spec (visit : Walk → NodeId → Except PlanError Walk) (bound : Nat)
    (ds : List NodeId)
    (hv : ∀ d ∈ ds, ∀ w : Walk, w.Sound g b v P →
      ∃ w', visit w d = .ok w' ∧ Walk.Visits g b v P w w' (· = d) bound)
    {w : Walk} (hw : w.Sound g b v P) :
    ∃ w', ds.foldlM visit w = .ok w' ∧ Walk.Visits g b v P w w' (· ∈ ds) bound := by
  induction ds generalizing w with
  | nil => exact ⟨w, rfl, hw, by simp, fun _ h => h, fun _ h => .inl h⟩
  | cons d rest ih =>
    obtain ⟨w₁, h₁, v₁⟩ := hv d (by simp) w hw
    obtain ⟨w₂, h₂, v₂⟩ := ih (fun e he => hv e (by simp [he])) v₁.sound
    refine ⟨w₂, by rw [List.foldlM_cons, h₁, ok_bind, h₂], v₂.sound, fun a ha => ?_,
      fun a ha => v₂.grows a (v₁.grows a ha), fun a ha => ?_⟩
    · rcases List.mem_cons.1 ha with rfl | ha
      · exact v₂.grows a (v₁.visited a rfl)
      · exact v₂.visited a ha
    · rcases v₂.bounded a ha with ha | ha
      · exact v₁.bounded a ha
      · exact .inr ha

theorem visit_spec (hg : g.WellFormed)
    (hP : ∀ {c n}, P c → v.materialized b c = false → v.transferable b c = false →
      g.node? c = some n → ∀ d ∈ n.deps b, P d) (fuel : Nat) {path : List NodeId} {id : NodeId}
    {w : Walk} (hf : id < fuel) (hs : id < g.size) (hp : ∀ c ∈ path, id < c) (hid : P id)
    (hw : w.Sound g b v P) :
    ∃ w', g.visit b v fuel path w id = .ok w' ∧ Walk.Visits g b v P w w' (· = id) (id + 1) := by
  induction fuel generalizing path id w with
  | zero => exact absurd hf (Nat.not_lt_zero id)
  | succ fuel ih =>
    rw [visit]
    by_cases hseen : id ∈ w.seen
    · rw [if_pos hseen]
      exact ⟨w, rfl, hw, by rintro a rfl; exact hseen, fun _ h => h, fun _ h => .inl h⟩
    -- All that is being visited comes after `id`.
    have hpath : id ∉ path := fun h => Nat.lt_irrefl id (hp id h)
    rw [if_neg hseen, if_neg hpath]
    cases hm : v.materialized b id with
    | true =>
      refine ⟨w.mark id, rfl, hw.mark hid hm, ?_, fun a ha => ?_, fun a ha => ?_⟩
      · rintro a rfl
        exact List.mem_cons_self
      · exact List.mem_cons_of_mem _ ha
      · rcases List.mem_cons.1 ha with rfl | ha
        · exact .inr (Nat.lt_succ_self _)
        · exact .inl ha
    | false =>
      cases ht : v.transferable b id with
      | true =>
        refine ⟨w.list id, rfl, hw.list hid hm hseen (by simp [ht]), ?_, fun a ha => ?_,
          fun a ha => ?_⟩
        · rintro a rfl
          exact List.mem_cons_self
        · exact List.mem_cons_of_mem _ ha
        · rcases List.mem_cons.1 ha with rfl | ha
          · exact .inr (Nat.lt_succ_self _)
          · exact .inl ha
      | false =>
        obtain ⟨n, hn⟩ := node?_isSome hs
        have hlt : ∀ d ∈ n.deps b, d < id := fun d hd => hg.dep_lt hn hd
        obtain ⟨w', hw', hv'⟩ := visitAll_spec (g.visit b v fuel (id :: path)) id
          (n.deps b) (fun d hd w hw => by
            have hp' : ∀ c ∈ id :: path, d < c :=
              List.forall_mem_cons.2 ⟨hlt d hd, fun c hc => Nat.lt_trans (hlt d hd) (hp c hc)⟩
            obtain ⟨w', h, hv⟩ := ih (Nat.lt_of_lt_of_le (hlt d hd) (Nat.le_of_lt_succ hf))
              (Nat.lt_trans (hlt d hd) hs) hp' (hP hid hm ht hn d hd) hw
            refine ⟨w', h, hv.sound, hv.visited, hv.grows, fun a ha => ?_⟩
            exact (hv.bounded a ha).imp_right fun h => Nat.lt_of_lt_of_le h (hlt d hd)) hw
        have hid' : id ∉ w'.seen := fun h =>
          (hv'.bounded id h).elim hseen (Nat.lt_irrefl _)
        refine ⟨w'.list id, ?_, hv'.sound.list hid hm hid' ?_, ?_, fun a ha => ?_, fun a ha => ?_⟩
        · simp only [node_eq_ok.2 hn, ok_bind, hw']
          rfl
        · intro _ m hm' d hd
          rw [hn, Option.some.injEq] at hm'
          subst hm'
          exact hv'.visited d hd
        · rintro a rfl
          exact List.mem_cons_self
        · exact List.mem_cons_of_mem _ (hv'.grows a ha)
        · rcases List.mem_cons.1 ha with rfl | ha
          · exact .inr (Nat.lt_succ_self _)
          · exact (hv'.bounded a ha).imp_right fun h => Nat.lt_succ_of_lt h

/-- **The order of a node holds the required ancestors that are not materialized.** -/
theorem dependencyOrder_spec (hg : g.WellFormed) {id : NodeId} {n : Node}
    (hn : g.node? id = some n) (b : Backend) (v : View) :
    ∃ order, g.dependencyOrder id b v = .ok order ∧ g.IsOrderOf b v id order := by
  have hlt : ∀ d ∈ n.deps b, d < g.size := fun d hd =>
    Nat.lt_trans (hg.dep_lt hn hd) (lt_size_of_node? hn)
  obtain ⟨w, hw, hv⟩ := visitAll_spec (g := g) (b := b) (v := v) (P := g.Required b v id)
    (g.visit b v g.size [id]) g.size (n.deps b) (w := ⟨[], []⟩)
    (fun d hd w hw => by
      have hp : ∀ c ∈ [id], d < c := List.forall_mem_singleton.2 (hg.dep_lt hn hd)
      obtain ⟨w', h, hv⟩ := visit_spec hg (P := g.Required b v id)
        (fun hc hm ht hn d hd => .step hc hm ht hn hd) g.size (hlt d hd) (hlt d hd) hp
        (.input hn hd) hw
      refine ⟨w', h, hv.sound, hv.visited, hv.grows, fun a ha => ?_⟩
      exact (hv.bounded a ha).imp_right fun h => Nat.lt_of_lt_of_le h (hlt d hd))
    ⟨by simp, by simp, by simp, by simp⟩
  refine ⟨w.order, by rw [dependencyOrder, node_eq_ok.2 hn, ok_bind, hw]; rfl, hv.sound.nodup,
    fun d => ?_, hv.sound.closed⟩
  constructor
  · intro hd
    obtain ⟨hs, hm⟩ := (hv.sound.mem_iff d).1 hd
    exact ⟨hv.sound.seen d hs, hm⟩
  · rintro ⟨hd, hm⟩
    induction hd with
    | input hn' hd =>
      rw [hn, Option.some.injEq] at hn'
      subst hn'
      exact (hv.sound.mem_iff _).2 ⟨hv.visited _ hd, hm⟩
    | @step c d m _ hmc htc hmn hd ih =>
      obtain ⟨before, after, ho⟩ := List.append_of_mem (ih hmc)
      have := hv.sound.closed ho htc hmn d hd hm
      rw [ho]
      exact List.mem_append_left _ this

theorem IsOrderOf.lt (hg : g.WellFormed) {id d : NodeId} {order : List NodeId}
    (ho : g.IsOrderOf b v id order) (hd : d ∈ order) : d < id :=
  ((ho.mem_iff d).1 hd).1.lt hg

theorem IsOrderOf.exists_node (hg : g.WellFormed) {id d : NodeId} {n : Node} {order : List NodeId}
    (ho : g.IsOrderOf b v id order) (hn : g.node? id = some n) (hd : d ∈ order ++ [id]) :
    ∃ m, g.node? d = some m := by
  rcases List.mem_append.1 hd with hd | hd
  · exact ((ho.mem_iff d).1 hd).1.exists_node hg
  · exact ⟨n, List.mem_singleton.1 hd ▸ hn⟩

/-- An input of the node itself is materialized or in its order. -/
theorem IsOrderOf.input {id d : NodeId} {order : List NodeId} (ho : g.IsOrderOf b v id order)
    {n : Node} (hn : g.node? id = some n) (hd : d ∈ n.deps b)
    (hm : v.materialized b d = false) : d ∈ order :=
  (ho.mem_iff d).2 ⟨.input hn hd, hm⟩

/-- So is an input of a node in the order, unless that node is transferable. -/
theorem IsOrderOf.step {id c d : NodeId} {order : List NodeId} (ho : g.IsOrderOf b v id order)
    (hc : c ∈ order) (ht : v.transferable b c = false) {n : Node} (hn : g.node? c = some n)
    (hd : d ∈ n.deps b) (hm : v.materialized b d = false) : d ∈ order := by
  obtain ⟨hr, hmc⟩ := (ho.mem_iff c).1 hc
  exact (ho.mem_iff d).2 ⟨.step hr hmc ht hn hd, hm⟩

/-- What a node in the order requires stands before it, or is materialized. -/
theorem IsOrderOf.before {id a e : NodeId} {order before after : List NodeId}
    (ho : g.IsOrderOf b v id order) (h : order = before ++ a :: after)
    (ht : v.transferable b a = false) (he : g.Required b v a e) (hm : v.materialized b e = false) :
    e ∈ before := by
  induction he with
  | input hn hd => exact ho.closed h ht hn _ hd hm
  | @step c d n _ hmc htc hn hd ih =>
    obtain ⟨front, back, rfl⟩ := List.append_of_mem (ih hmc)
    have split : order = front ++ c :: (back ++ a :: after) := by simp [h]
    exact List.mem_append_left _ (ho.closed split htc hn d hd hm)

/-! ## Checks for computability -/

/-- One more node is judged, given which of those before it cannot be produced. -/
theorem failures_append_singleton {order failed : List NodeId} {id : NodeId} :
    g.failures b v (order ++ [id]) = .ok failed ↔ ∃ before n, g.failures b v order = .ok before ∧
      g.node? id = some n ∧ failed = if computable n b v before then before else before ++ [id] := by
  simp only [failures, List.foldlM_append, List.foldlM_cons, List.foldlM_nil, bind_eq_ok, node_eq_ok,
    pure_eq_ok, Except.ok.injEq]
  constructor
  · rintro ⟨before, hbefore, _, ⟨n, hn, rfl⟩, rfl⟩
    exact ⟨before, n, hbefore, hn, rfl⟩
  · rintro ⟨before, n, hbefore, hn, rfl⟩
    exact ⟨before, hbefore, _, ⟨n, hn, rfl⟩, rfl⟩

theorem failures_isOk {order : List NodeId} (hnodes : ∀ d ∈ order, ∃ n, g.node? d = some n) :
    ∃ failed, g.failures b v order = .ok failed := by
  induction order using List.reverseRecOn with
  | nil => exact ⟨[], rfl⟩
  | append_singleton order d ih =>
    obtain ⟨failed, hf⟩ := ih fun e he => hnodes e (by simp [he])
    obtain ⟨n, hn⟩ := hnodes d (by simp)
    exact ⟨_, failures_append_singleton.2 ⟨failed, n, hf, hn, rfl⟩⟩

theorem computable_of_failures {order : List NodeId} (h : g.failures b v order = .ok []) :
    ∀ d ∈ order, ∃ n, g.node? d = some n ∧ computable n b v [] = true := by
  induction order using List.reverseRecOn with
  | nil => simp
  | append_singleton order d ih =>
    obtain ⟨before, n, hbefore, hn, hfailed⟩ := failures_append_singleton.1 h
    split at hfailed
    · rename_i hc
      subst hfailed
      exact List.forall_mem_append.2 ⟨ih hbefore, List.forall_mem_singleton.2 ⟨n, hn, hc⟩⟩
    · simp at hfailed

/-- A check that succeeds has found the node and its whole order computable. -/
theorem computable_of_check {id : NodeId} {order : List NodeId}
    (h : g.checkComputable id b v = .ok ()) (ho : g.dependencyOrder id b v = .ok order) :
    ∀ d ∈ order ++ [id], ∃ n, g.node? d = some n ∧ computable n b v [] = true := by
  simp only [checkComputable, ho, ok_bind, bind_eq_ok] at h
  obtain ⟨failed, hf, h⟩ := h
  cases failed with
  | nil => exact computable_of_failures hf
  | cons => cases h

/-- What the store does not have yet and can produce is a grouping or can be written as a statement. -/
theorem hasStatement_of_computable {n : Node} (h : computable n .relational v [] = true)
    (hr : v.relational n.id = false) (hi : v.inMemory n.id = false)
    (hc : n.op.isContainer = false) : n.op.hasStatement = true := by
  simp only [computable, hr, hi, hc, Bool.or_false, Bool.false_or, Bool.and_eq_true] at h
  exact h.1

/-- What memory does not have yet and can produce is no base table. -/
theorem isSource_of_computable {n : Node} (h : computable n .inMemory v [] = true)
    (hr : v.relational n.id = false) (hi : v.inMemory n.id = false) : n.op.isSource = false := by
  simp only [computable, hr, hi, Bool.false_or, Bool.and_eq_true, Bool.not_eq_true'] at h
  exact h.2.1

/-- A check yields no error but that the backend is unreachable. -/
theorem check_error (hg : g.WellFormed) {id : NodeId} {n : Node} (hn : g.node? id = some n)
    {e : PlanError} (h : g.checkComputable id b v = .error e) :
    ∃ k, e = .backendUnreachable b k := by
  obtain ⟨order, ho, hord⟩ := dependencyOrder_spec hg hn b v
  obtain ⟨failed, hf⟩ := failures_isOk (b := b) (v := v) fun d => hord.exists_node hg hn
  rw [checkComputable, ho, ok_bind, hf, ok_bind] at h
  cases failed with
  | nil => cases h
  | cons => cases h; exact ⟨_, rfl⟩

end Graph
end LazyQuery
