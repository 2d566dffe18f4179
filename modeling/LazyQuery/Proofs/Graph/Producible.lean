import LazyQuery.Proofs.Graph.Topological

/-!
# What can be produced on a backend

A result can be produced on a backend if it is there or on the other backend, or if the operation can be
done there on inputs that can be produced, groupings being done along with what works on them. In memory
no result can be produced that is known to be too large. `Graph.Producible` says so of the whole graph
below a node, whereas a check of the node goes through a list: its dependency order and the node itself.

The list leaves out what is behind a transferable node, which need not be produced, and what is
materialized. `failures_eq_filter` says that the nodes found wanting are those of the list that cannot be
produced: the inputs that a node is judged by have been judged before it. A node that can be produced
and is on no backend has inputs that can be produced (`Producible.input`), so that one node of the
list that cannot be produced is enough for the last one. Hence `checkComputable_iff`.
-/

set_option autoImplicit false

namespace LazyQuery

namespace View

variable {v : View} {b : Backend} {id : NodeId}

/-- Is the result on one of the backends? -/
def isHeld (v : View) (id : NodeId) : Bool := v.relational id || v.inMemory id

/-- Has the backend room for the result? -/
def fits (v : View) : Backend → NodeId → Bool
  | .relational, _ => true
  | .inMemory, id => !v.outOfMemory id

/-- What is in memory has not been too large for it. -/
def IsFitting (v : View) : Prop := ∀ id, ¬(v.inMemory id = true ∧ v.outOfMemory id = true)

theorem held_of_materialized (hv : v.IsFitting) (h : v.materialized b id = true) :
    v.fits b id = true ∧ v.isHeld id = true := by
  cases b with
  | relational => exact ⟨rfl, by rw [isHeld, Bool.or_eq_true]; exact .inl h⟩
  | inMemory =>
    refine ⟨?_, by rw [isHeld, Bool.or_eq_true]; exact .inr h⟩
    rw [fits, Bool.not_eq_true']
    exact Bool.eq_false_iff.2 fun ho => hv id ⟨h, ho⟩

theorem held_of_transferable (h : v.transferable b id = true) :
    v.fits b id = true ∧ v.isHeld id = true := by
  cases b with
  | relational => exact ⟨rfl, by rw [isHeld, Bool.or_eq_true]; exact .inr h⟩
  | inMemory =>
    rw [transferable, Bool.and_eq_true] at h
    exact ⟨h.2, by rw [isHeld, Bool.or_eq_true]; exact .inl h.1⟩

/-- What is held and has room is on the backend or can be moved there. -/
theorem materialized_or_transferable (hf : v.fits b id = true) (hh : v.isHeld id = true) :
    v.materialized b id = true ∨ v.transferable b id = true := by
  rw [isHeld, Bool.or_eq_true] at hh
  cases b with
  | relational => exact hh
  | inMemory =>
    rw [transferable, Bool.and_eq_true]
    exact hh.symm.imp_right fun h => ⟨h, hf⟩

end View

/-- Can the operation be done on the backend, or along with what works on it? -/
def Op.runsOn (op : Op) : Backend → Bool
  | .relational => op.hasStatement || op.isContainer
  | .inMemory => !op.isSource

namespace Graph

variable {g : Graph} {b : Backend} {v : View} {id : NodeId} {n : Node}

/-- Can the result of a node be produced on the backend? -/
inductive Producible (g : Graph) (b : Backend) (v : View) : NodeId → Prop
  | held {id : NodeId} (hf : v.fits b id = true) (hh : v.isHeld id = true) : Producible g b v id
  | made {id : NodeId} {n : Node} (hf : v.fits b id = true) (hn : g.node? id = some n)
      (hop : n.op.runsOn b = true) (hd : ∀ d ∈ n.deps b, Producible g b v d) : Producible g b v id

theorem producible_iff (hn : g.node? id = some n) : g.Producible b v id ↔
    v.fits b id = true ∧ (v.isHeld id = true ∨
      n.op.runsOn b = true ∧ ∀ d ∈ n.deps b, g.Producible b v d) := by
  constructor
  · rintro (⟨hf, hh⟩ | ⟨hf, hn', hop, hd⟩)
    · exact ⟨hf, .inl hh⟩
    · rw [hn, Option.some.injEq] at hn'
      subst hn'
      exact ⟨hf, .inr ⟨hop, hd⟩⟩
  · rintro ⟨hf, hh | ⟨hop, hd⟩⟩
    · exact .held hf hh
    · exact .made hf hn hop hd

/-- What is neither materialized nor transferable must be made. -/
theorem Producible.input (h : g.Producible b v id) (hm : v.materialized b id = false)
    (ht : v.transferable b id = false) (hn : g.node? id = some n) {d : NodeId} (hd : d ∈ n.deps b) :
    g.Producible b v d := by
  obtain ⟨hf, hh | ⟨-, hall⟩⟩ := (producible_iff hn).1 h
  · rcases View.materialized_or_transferable hf hh with h | h
    · simp [h] at hm
    · simp [h] at ht
  · exact hall d hd

/-- If a node must be made and can be, so can all that a walk from it meets. -/
theorem Required.producible {d : NodeId} (hd : g.Required b v id d) (h : g.Producible b v id)
    (hm : v.materialized b id = false) (ht : v.transferable b id = false) : g.Producible b v d := by
  induction hd with
  | input hn hd => exact h.input hm ht hn hd
  | step _ hmc htc hn hd ih => exact ih.input hmc htc hn hd

/-! ## Checks -/

theorem computable_eq (n : Node) (b : Backend) (v : View) (failed : List NodeId) :
    computable n b v failed = (v.fits b n.id && (v.isHeld n.id ||
      (n.op.runsOn b && (n.deps b).all fun d => !failed.contains d))) := by
  cases b with
  | relational => simp [computable, View.fits, View.isHeld, Op.runsOn]
  | inMemory =>
    simp only [computable, View.fits, View.isHeld, Op.runsOn]
    rw [Bool.or_comm (v.inMemory n.id)]

/-- A node is judged rightly if its result is held, or if its inputs have been judged rightly. -/
theorem computable_iff_producible (hg : g.WellFormed) (hn : g.node? id = some n)
    {failed : List NodeId} (h : (v.fits b id = true ∧ v.isHeld id = true) ∨
      ∀ d ∈ n.deps b, d ∉ failed ↔ g.Producible b v d) :
    computable n b v failed = true ↔ g.Producible b v id := by
  rw [computable_eq, hg.id_eq hn, producible_iff hn, Bool.and_eq_true, Bool.or_eq_true,
    Bool.and_eq_true, List.all_eq_true]
  simp only [Bool.not_eq_true', ← Bool.not_eq_true, List.contains_iff_mem]
  rcases h with ⟨hf, hh⟩ | h
  · simp [hf, hh]
  · rw [forall₂_congr h]

/-- Where a node stands in the list that is checked, its result can be moved to the backend, or its inputs
are there or stand before it. -/
theorem IsOrderOf.supplied {order before after : List NodeId} {a : NodeId} {m : Node}
    (ho : g.IsOrderOf b v id order) (hsplit : order ++ [id] = before ++ a :: after)
    (hm : g.node? a = some m) : v.transferable b a = true ∨
      ∀ d ∈ m.deps b, v.materialized b d = true ∨ d ∈ before := by
  refine or_iff_not_imp_left.2 fun ht d hd => or_iff_not_imp_left.2 fun hmd => ?_
  rw [Bool.not_eq_true] at ht hmd
  rcases Walk.split_snoc hsplit with ⟨rfl, rfl⟩ | ⟨after', hsplit⟩
  · exact ho.input hm hd hmd
  · exact ho.closed hsplit ht hm d hd hmd

open scoped Classical in
/-- **A check finds those nodes that cannot be produced.** -/
theorem failures_eq_filter (hg : g.WellFormed) (hv : v.IsFitting) {order : List NodeId}
    (ho : g.IsOrderOf b v id order) (hn : g.node? id = some n) {before after : List NodeId}
    (hsplit : order ++ [id] = before ++ after) :
    g.failures b v before = .ok (before.filter fun a => ¬g.Producible b v a) := by
  induction before using List.reverseRecOn generalizing after with
  | nil => rfl
  | append_singleton before a ih =>
    rw [List.append_assoc, List.singleton_append] at hsplit
    have ha : a ∈ order ++ [id] := by simp [hsplit]
    obtain ⟨m, hm⟩ := ho.exists_node hg hn ha
    refine failures_append_singleton.2 ⟨_, m, ih hsplit, hm, ?_⟩
    rw [List.filter_append]
    have judged : computable m b v (before.filter fun a => ¬g.Producible b v a) = true ↔
        g.Producible b v a := by
      refine computable_iff_producible hg hm ?_
      refine (ho.supplied hsplit hm).imp View.held_of_transferable fun hinputs d hd => ?_
      rw [List.mem_filter]
      rcases hinputs d hd with hmd | hbefore
      · obtain ⟨hf, hh⟩ := View.held_of_materialized hv hmd
        simp [Producible.held (g := g) hf hh]
      · simp [hbefore]
    by_cases hp : g.Producible b v a
    · rw [if_pos (judged.2 hp)]
      simp [hp]
    · rw [if_neg fun h => hp (judged.1 h)]
      simp [hp]

/-- What a check accepts can be produced. -/
theorem producible_of_check (hg : g.WellFormed) (hv : v.IsFitting) (hn : g.node? id = some n)
    (hcheck : g.checkComputable id b v = .ok ()) : g.Producible b v id := by
  obtain ⟨order, horder, ho⟩ := dependencyOrder_spec hg hn b v
  suffices h : ∀ a ∈ order ++ [id], g.Producible b v a from h id (by simp)
  intro a
  induction a using Nat.strongRecOn with
  | _ a ih =>
    intro ha
    obtain ⟨before, after, hsplit⟩ := List.append_of_mem ha
    obtain ⟨m, hm, hcomp⟩ := computable_of_check hcheck horder a ha
    rw [computable_eq, hg.id_eq hm, Bool.and_eq_true, Bool.or_eq_true, Bool.and_eq_true] at hcomp
    obtain ⟨hf, hcomp⟩ := hcomp
    by_cases hh : v.isHeld a = true
    · exact .held hf hh
    have hinputs := (ho.supplied hsplit hm).resolve_left fun ht => hh (View.held_of_transferable ht).2
    refine .made hf hm (hcomp.resolve_left hh).1 fun d hd => ?_
    rcases hinputs d hd with hmd | hbefore
    · exact .held (View.held_of_materialized hv hmd).1 (View.held_of_materialized hv hmd).2
    · exact ih d (hg.dep_lt hm hd) (by simp [hsplit, hbefore])

/-- What can be produced passes a check. -/
theorem check_of_producible (hg : g.WellFormed) (hv : v.IsFitting) (hn : g.node? id = some n)
    (hm : v.materialized b id = false) (ht : v.transferable b id = false)
    (hp : g.Producible b v id) : g.checkComputable id b v = .ok () := by
  classical
  obtain ⟨order, horder, ho⟩ := dependencyOrder_spec hg hn b v
  have hall : ∀ a ∈ order ++ [id], g.Producible b v a :=
    List.forall_mem_append.2 ⟨fun a ha => ((ho.mem_iff a).1 ha).1.producible hp hm ht,
      List.forall_mem_singleton.2 hp⟩
  rw [checkComputable, horder, ok_bind,
    failures_eq_filter hg hv ho hn (List.append_nil (order ++ [id])).symm, ok_bind,
    List.filter_eq_nil_iff.2 fun a ha => by simp [hall a ha]]
  rfl

/-- **A check is exact.** It accepts a node that is neither materialized nor transferable exactly if the
node can be produced on the backend, and otherwise says that the backend cannot be reached. -/
theorem checkComputable_iff (hg : g.Constructed) (hv : v.IsFitting) (hn : g.node? id = some n)
    (hm : v.materialized b id = false) (ht : v.transferable b id = false) :
    (g.checkComputable id b v = .ok () ↔ g.Producible b v id) ∧
      (¬g.Producible b v id →
        ∃ k, 0 < k ∧ g.checkComputable id b v = .error (.backendUnreachable b k)) := by
  classical
  obtain ⟨order, horder, ho⟩ := dependencyOrder_spec hg.wellFormed hn b v
  have hfailures := failures_eq_filter hg.wellFormed hv ho hn (List.append_nil (order ++ [id])).symm
  rw [checkComputable, horder, ok_bind, hfailures, ok_bind]
  by_cases hp : g.Producible b v id
  · have hall : ∀ a ∈ order ++ [id], g.Producible b v a := by
      intro a ha
      rcases List.mem_append.1 ha with ha | ha
      · exact ((ho.mem_iff a).1 ha).1.producible hp hm ht
      · rwa [List.mem_singleton.1 ha]
    rw [List.filter_eq_nil_iff.2 fun a ha => by simp [hall a ha]]
    exact ⟨iff_of_true rfl hp, absurd hp⟩
  · have hmem : id ∈ (order ++ [id]).filter fun a => ¬g.Producible b v a := by simp [hp]
    cases hfailed : (order ++ [id]).filter fun a => ¬g.Producible b v a with
    | nil =>
      rw [hfailed] at hmem
      cases hmem
    | cons a failed =>
      exact ⟨iff_of_false (fun h => by cases h) hp, fun _ => ⟨_, Nat.succ_pos _, rfl⟩⟩

/-- The base table is in the store, the second limit in memory, and the first was too large for it. -/
def firstTooLarge : View := ⟨(· == 2), (· == 0), (· == 1), fun _ => none⟩

/-- Then the union of the limits can be computed in the store, and not in memory. -/
theorem checkComputable_iff_sharedLimits : firstTooLarge.IsFitting ∧
    sharedLimits.Producible .relational firstTooLarge 3 ∧
      ¬sharedLimits.Producible .inMemory firstTooLarge 3 := by
  have hv : firstTooLarge.IsFitting := by
    rintro id ⟨hm, ho⟩
    rw [eq_of_beq hm] at ho
    cases ho
  have inStore := @checkComputable_iff sharedLimits .relational firstTooLarge 3 _
    constructed_sharedLimits hv rfl rfl rfl
  have inMemory := @checkComputable_iff sharedLimits .inMemory firstTooLarge 3 _
    constructed_sharedLimits hv rfl rfl rfl
  exact ⟨hv, inStore.1.1 rfl, fun h => by cases inMemory.1.2 h⟩

end Graph
end LazyQuery
