import LazyQuery.Proofs.Engine.Measuring

/-!
# Results that are too large

A result that does not fit into memory stays in the store, and a computation that would need it in memory
fails. What it reports is true when the result is found to be too large: what was estimated exceeds what
is free. It goes on being reported afterwards, however much has become free.

* `materializeWithin_spares`: over inputs that are there, a materialization finds no result too large but
  the node's own. So whatever stops the inputs of a node has been found too large last.
* `materializeWithin_weighs`: what a materialization finds too large, and what it refuses, exceeds what is
  free.
* `Site.TooLarge` is kept by whatever an engine does, with the estimate, and `compute_of_tooLarge` says how
  a computation then ends.
* `compute_refuses` puts these together.
-/

set_option autoImplicit false

namespace LazyQuery

namespace Graph

variable {g : Graph} {v : View} {id d : NodeId}

/-- What the store needs for a node, memory would need as well. -/
theorem Required.inMemory (h : g.Required .relational v id d) : g.Required .inMemory v id d := by
  induction h with
  | input hn hd => exact .input hn (List.mem_append_left _ hd)
  | step _ hm ht hn hd ih =>
    refine .step ih ht ?_ hn (List.mem_append_left _ hd)
    exact Bool.and_eq_false_iff.2 (.inl hm)

end Graph

namespace Engine

variable {materialize : NodeId → EngineM Unit} {s t : Site} {id : NodeId} {n : Node}

/-! ## A node whose inputs are there -/

/-- If only groupings are missing, there is nothing to materialize. -/
theorem firstTooLarge_of_groupings {order : List NodeId}
    (h : ∀ d ∈ order, s.engine.graph.Has (·.isContainer) d) :
    Ends (firstTooLarge materialize order) s (fun r t => r = none ∧ t = s) fun _ _ => False := by
  induction order with
  | nil => exact ⟨rfl, rfl⟩
  | cons d rest ih =>
    obtain ⟨⟨n, hn, hc⟩, hrest⟩ := List.forall_mem_cons.1 h
    rw [firstTooLarge, ends_bind, ends_node hn, if_pos hc]
    exact ih hrest

/-- Of an ancestor that is in memory nothing is done but to load it into the store. -/
theorem supply_of_inMemory {d : NodeId} (hn : s.engine.graph.node? d = some n)
    (h : n.op.isContainer = true ∨ s.engine.view.inMemory d = true) {Q : Unit → Site → Prop}
    {E : EngineError → Site → Prop} (hQ : Q ⟨⟩ s)
    (hload : s.engine.view.inMemory d = true → Ends (offload d) s Q E) :
    Ends (supply materialize d) s Q E := by
  rw [supply, ends_bind, ends_node hn, ends_bind, ends_get]
  refine Ends.ite (fun _ => hQ) fun hc => Ends.ite (fun hi => ?_) fun hi => ?_
  · exact Ends.ite (fun _ => hQ) fun _ => hload hi
  · exact absurd (h.resolve_left hc) hi

theorem produceInStore_spares (h : s.Provides id) (hs : s.Sound)
    (hn : s.engine.graph.node? id = some n) :
    Ends (produceInStore materialize id) s
      (fun _ t => s.FlagsOnly id t) fun _ _ => True := by
  rw [produceInStore]
  refine (requirements_ends hs hn _).andThen ?_ fun _ _ _ => trivial
  rintro order t ⟨rfl, ho, -⟩
  refine (Ends.forM (E := fun _ _ => True) (I := fun rest u => t.KeepsFlags u ∧ ∀ d ∈ rest, d ∈ order)
    ⟨.refl t, fun _ hd => hd⟩ ?_).andThen ?_ fun _ _ _ => trivial
  · rintro d rest u ⟨hu, hmem⟩
    obtain ⟨hmem, hrest⟩ := List.forall_mem_cons.1 hmem
    obtain ⟨m, hm⟩ := ho.exists_node hs.graph hn (List.mem_append_left _ hmem)
    have hthere := h d ((ho.mem_iff d).1 hmem).1.inMemory
    refine supply_of_inMemory (n := m) (hu.graph ▸ hm) ?_ ⟨hu, hrest⟩ fun _ => ?_
    · exact hthere.imp (fun hc => hc.of_node? hm) (hu.inMemory d)
    · exact (neutral_offload u).mono (fun _ _ hv => ⟨hu.trans hv, hrest⟩) fun _ _ _ => trivial
  · rintro - u ⟨hu, -⟩
    exact (measures_createAndRead u).mono (fun _ v hv j hj => (hv.1 j hj).trans (hu.outOfMemory j))
      fun _ _ _ => trivial

theorem produceInMemory_spares (h : s.Provides id) (hs : s.Sound)
    (hn : s.engine.graph.node? id = some n) :
    Ends (produceInMemory materialize id) s
      (fun _ t => s.FlagsOnly id t) fun _ _ => True := by
  rw [produceInMemory]
  refine (requirements_ends hs hn _).andThen ?_ fun _ _ _ => trivial
  rintro order t ⟨rfl, ho, -⟩
  refine (firstTooLarge_of_groupings fun d hd => ?_).andThen ?_ fun _ _ h => h.elim
  · obtain ⟨hreq, hm⟩ := (ho.mem_iff d).1 hd
    refine (h d hreq).resolve_right fun hi => ?_
    rw [show t.engine.view.inMemory d = false from hm] at hi
    cases hi
  · rintro - u ⟨rfl, rfl⟩
    exact (neutral_evaluateNode u).mono (fun _ _ hv j _ => hv.outOfMemory j) fun _ _ _ => trivial

/-- **A materialization over inputs that are there finds no other result too large.** -/
theorem materializeWithin_spares (fuel : Nat) (hs : s.Sound) (hn : s.engine.graph.node? id = some n)
    (h : s.engine.view.relational id = true ∨ s.Provides id) :
    Ends (materializeWithin fuel id) s
      (fun _ t => s.FlagsOnly id t) fun _ _ => True := by
  obtain ⟨st, hst⟩ := hs.known hn
  have refuses : Ends (refuseReentry id) s
      (fun _ t => s.FlagsOnly id t) fun _ _ => True :=
    ends_bind.2 ((ends_node hn).2 trivial)
  cases fuel with
  | zero => exact refuses
  | succ fuel =>
    rw [materializeWithin, ends_bind, ends_node hn]
    refine Ends.ite (fun _ => trivial) fun _ => ?_
    rw [ends_bind, ends_state hst, ends_bind, ends_get]
    refine Ends.ite (fun _ _ _ => rfl) fun _ => Ends.ite (fun _ => ?_) fun hr =>
      Ends.ite (fun _ => refuses) fun _ => ?_
    · exact (measures_readBack s).mono (fun _ _ ht => ht.1) fun _ _ _ => trivial
    have hp := h.resolve_left hr
    refine Ends.andThen (backendFor_ends hs hn) ?_ fun _ _ _ => trivial
    rintro b t ⟨rfl, -⟩
    have hp : (t.modify id (.flagged true)).Provides id := fun d hd => by
      rw [Site.view_flagged] at hd ⊢
      exact hp d hd
    have hu : (t.modify id (.flagged true)).Sound := Move.sound (.flag true) hs
    rw [ends_bind, ends_updateState hst, ends_finally]
    have produced : Ends (produce (materializeWithin fuel) id b) (t.modify id (.flagged true))
        (fun _ u => (t.modify id (.flagged true)).FlagsOnly id u) fun _ _ => True := by
      cases b with
      | inMemory => exact produceInMemory_spares hp hu hn
      | relational => exact produceInStore_spares hp hu hn
    refine produced.mono (fun _ u hu => ?_) fun _ _ _ => ends_trivial
    refine (neutral_flagged id false u).mono (fun _ v hv => ?_)
      fun _ _ _ => trivial
    intro j hj
    rw [hv.outOfMemory, hu j hj, Site.view_flagged]

/-! ## What is found too large is too large -/

/-- Materializations of nodes below a bound find a result too large only if it is: what they flag and what
they refuse exceeds what is free. -/
def Weighs (fuel : Nat) (bound : NodeId) : Prop :=
  ∀ {s : Site} {id : NodeId} {n : Node}, id < bound → s.Sound →
    s.engine.graph.node? id = some n → n.op.isContainer = false →
      (∀ j, j ≤ id → s.computing j = false) →
        Ends (materializeWithin fuel id) s
          (fun _ t => t.engine.view.outOfMemory id = true →
            s.engine.view.outOfMemory id = true ∨ t.Exceeds id)
          s.Justifies

variable {fuel : Nat} {dep : NodeId}

theorem supply_weighs (hW : Weighs fuel id) (hs : s.Sound)
    (hidle : ∀ j, j < id → s.computing j = false) (hlt : dep < id)
    (hn : s.engine.graph.node? dep = some n) (hp : s.Progress id t) :
    Ends (supply (materializeWithin fuel) dep) t (fun _ _ => True) s.Justifies := by
  have hn' : t.engine.graph.node? dep = some n := by rwa [hp.keeps.graph]
  have neutral {x : EngineM Unit} (hx : Neutral x) (u : Site) :
      Ends x u (fun _ _ => True) s.Justifies :=
    (hx u).mono (fun _ _ _ => trivial) fun _ _ => Site.justifies_of_not
  rw [supply, ends_bind, ends_node hn', ends_bind, ends_get]
  refine Ends.ite (fun _ => trivial) fun hc => Ends.ite (fun _ => ?_) fun _ =>
    Ends.ite (fun _ => trivial) fun _ => Ends.ite (fun _ => neutral neutral_createRelational t)
      fun _ => ?_
  · exact Ends.ite (fun _ => trivial) fun _ => neutral neutral_offload t
  · refine (hW hlt (hp.sound hs) hn' (by simpa using hc) fun j hj => ?_).andThen (fun _ u _ => ?_)
      fun e u he => he.of_keeps hp.keeps
    · exact (hp.computing j).trans (hidle j (Nat.lt_of_le_of_lt hj hlt))
    · rw [ends_bind, ends_get]
      exact Ends.ite (fun _ => trivial) fun _ => neutral neutral_offload u

theorem produceInStore_weighs (hM : Materializes (materializeWithin fuel) id) (hW : Weighs fuel id)
    (hs : s.Sound) (hn : s.engine.graph.node? id = some n) (hu : s.MayUseStore)
    (hidle : ∀ j, j < id → s.computing j = false) :
    Ends (produceInStore (materializeWithin fuel) id) s
      (fun _ t => t.engine.view.outOfMemory id = true →
        s.engine.view.outOfMemory id = true ∨ t.Exceeds id)
      s.Justifies := by
  rw [produceInStore]
  refine ((requirements_ends hs hn _).and (neutral_requirements _ s)).andThen ?_
    fun _ _ h => Site.justifies_of_not h.2
  rintro order t ⟨⟨rfl, ho, hcheck⟩, -⟩
  refine (Ends.forM (E := t.Justifies) (I := fun rest u => ∃ before, order = before ++ rest ∧
    Supplying t id before u) ⟨[], rfl, .refl _ _, fun _ _ => rfl, by simp⟩ ?_).andThen ?_
    fun _ _ he => he
  · rintro dep rest u ⟨before, hsplit, h⟩
    have hmem : dep ∈ order := by simp [hsplit]
    obtain ⟨m, hm⟩ := ho.exists_node hs.graph hn (List.mem_append_left _ hmem)
    refine ((supply_ends hM hs hu hidle ho (fun d hd => hcheck d (by simp [hd])) hsplit h).and
      (supply_weighs hW hs hidle (ho.lt hs.graph hmem) hm h.progress)).mono ?_ fun _ _ he => he.2
    exact fun _ v hv => ⟨before ++ [dep], by simp [hsplit], hv.1⟩
  · rintro - u ⟨before, -, h⟩
    have known : u.engine.view.outOfMemory id = t.engine.view.outOfMemory id := by
      rw [Site.outOfMemory_eq, h.progress.keeps.above id (Nat.le_refl _)]
      rfl
    exact (measures_createAndRead u).mono (fun _ v hv => known ▸ hv.2) fun _ _ => Site.justifies_of_not

/-- In the order of a node, what is needed for one of them is there when those before it are. -/
theorem provides_of_before (hs : s.Sound) {order before after : List NodeId}
    (ho : s.engine.graph.IsOrderOf .inMemory s.engine.view id order)
    (hsplit : order = before ++ dep :: after) (ht : s.engine.view.transferable .inMemory dep = false)
    (hk : s.Keeps id t)
    (hbefore : ∀ d ∈ before,
      s.engine.graph.Has (·.isContainer) d ∨ t.engine.view.inMemory d = true) :
    t.Provides dep := by
  have present {d : NodeId} (h : s.engine.view.materialized .inMemory d = false → d ∈ before) :
      d ∈ before ∧ s.engine.graph.Has (·.isContainer) d ∨ t.engine.view.inMemory d = true := by
    cases hd : s.engine.view.materialized .inMemory d with
    | true => exact .inr (hk.inMemory hd)
    | false => exact (hbefore d (h hd)).imp_left fun hc => ⟨h hd, hc⟩
  intro d hd
  rw [hk.graph] at hd ⊢
  suffices h : d ∈ before ∧ s.engine.graph.Has (·.isContainer) d ∨
      t.engine.view.inMemory d = true from h.imp_left And.right
  induction hd with
  | input hn hd => exact present (ho.closed hsplit ht hn _ hd)
  | @step c d n _ hm _ hn hd ih =>
    rcases ih with ⟨hc, m, hcm, hcont⟩ | hi
    · -- A grouping is nowhere, so that the walk has gone on to its inputs.
      obtain ⟨front, back, rfl⟩ := List.append_of_mem hc
      have hct : s.engine.view.transferable .inMemory c = false :=
        Bool.and_eq_false_iff.2 (.inl (hs.skipsGroupings hcm hcont).2)
      have hsplit' : order = front ++ c :: (back ++ dep :: after) := by
        rw [hsplit, List.append_assoc, List.cons_append]
      exact present fun hmd => List.mem_append_left _ (ho.closed hsplit' hct hn d hd hmd)
    · rw [show t.engine.view.inMemory c = false from hm] at hi
      cases hi

/-- What stops the materialization of an order has been found too large just now. -/
theorem firstTooLarge_weighs (hM : Materializes (materializeWithin fuel) id) (hW : Weighs fuel id)
    (hs : s.Sound) (hn : s.engine.graph.node? id = some n)
    (hidle : ∀ j, j < id → s.computing j = false) {order : List NodeId}
    (ho : s.engine.graph.IsOrderOf .inMemory s.engine.view id order)
    {before rest : List NodeId} (hsplit : order = before ++ rest) (hp : s.Progress id t)
    (hbefore : ∀ d ∈ before,
      s.engine.graph.Has (·.isContainer) d ∨ t.engine.view.inMemory d = true)
    (hrest : ∀ d ∈ rest, t.engine.view.outOfMemory d = false) :
    Ends (firstTooLarge (materializeWithin fuel) rest) t
      (fun r u => ∀ dep, r = some dep → dep ∈ order ∧ u.engine.view.outOfMemory dep = true ∧
        u.engine.view.relational dep = true ∧ u.Exceeds dep)
      s.Justifies := by
  induction rest generalizing before t with
  | nil => exact nofun
  | cons dep rest ih =>
    have hmem : dep ∈ order := by simp [hsplit]
    have hlt := ho.lt hs.graph hmem
    obtain ⟨m, hm⟩ := ho.exists_node hs.graph hn (List.mem_append_left _ hmem)
    have hm' : t.engine.graph.node? dep = some m := by rwa [hp.keeps.graph]
    have hnext : order = (before ++ [dep]) ++ rest := by simp [hsplit]
    obtain ⟨hdep, hrest⟩ := List.forall_mem_cons.1 hrest
    rw [firstTooLarge, ends_bind, ends_node hm']
    refine Ends.ite (fun hc => ih hnext hp ?_ hrest) fun hc => ?_
    · exact List.forall_mem_append.2 ⟨hbefore, List.forall_mem_singleton.2 (.inl ⟨m, hm, hc⟩)⟩
    have hc : m.op.isContainer = false := by simpa using hc
    have hidle' (j : NodeId) (hj : j ≤ dep) : t.computing j = false :=
      (hp.computing j).trans (hidle j (Nat.lt_of_le_of_lt hj hlt))
    have hthere : t.engine.view.relational dep = true ∨ t.Provides dep := by
      cases ht : s.engine.view.transferable .inMemory dep with
      | true => exact .inl (hp.keeps.relational (Bool.and_eq_true_iff.1 ht).1)
      | false => exact .inr (provides_of_before hs ho hsplit ht hp.keeps hbefore)
    refine (((hM hlt (hp.sound hs) hm' hc hidle').and
      (hW hlt (hp.sound hs) hm' hc hidle')).and
      (materializeWithin_spares fuel (hp.sound hs) hm' hthere)).andThen ?_
      fun e u he => he.1.2.of_keeps hp.keeps
    rintro - u ⟨⟨⟨hpu, hsettled⟩, hweighed⟩, hspared⟩
    rw [ends_bind, ends_get]
    have hpu' := hp.trans (hpu.mono hlt)
    refine Ends.ite (fun hi => ih hnext hpu' ?_ fun d hd => ?_) fun hi => ?_
    · refine List.forall_mem_append.2 ⟨fun d hd => ?_, List.forall_mem_singleton.2 (.inr hi)⟩
      exact (hbefore d hd).imp_right hpu.keeps.inMemory
    · have hne : d ≠ dep := by
        rintro rfl
        have hnodup := hsplit ▸ ho.nodup
        exact (List.nodup_cons.1 (List.nodup_append.1 hnodup).2.1).1 hd
      rw [hspared d hne]
      exact hrest d hd
    · rintro d hd
      obtain rfl := Option.some.inj hd
      obtain ⟨hout, hr⟩ := hsettled.resolve_left hi
      refine ⟨hmem, hout, hr, (hweighed hout).resolve_left ?_⟩
      rw [hdep]
      exact Bool.false_ne_true

/-- What memory can produce has not been too large for it. -/
theorem outOfMemory_of_check (hs : s.Sound) {d : NodeId} {m : Node}
    (hm : s.engine.graph.node? d = some m)
    (hcomp : Graph.computable m .inMemory s.engine.view [] = true) :
    s.engine.view.outOfMemory d = false := by
  rw [Graph.computable, hs.graph.id_eq hm, Bool.and_eq_true, Bool.not_eq_true'] at hcomp
  exact hcomp.1

theorem produceInMemory_weighs (hM : Materializes (materializeWithin fuel) id) (hW : Weighs fuel id)
    (hs : s.Sound) (hn : s.engine.graph.node? id = some n)
    (hidle : ∀ j, j < id → s.computing j = false) :
    Ends (produceInMemory (materializeWithin fuel) id) s
      (fun _ t => t.engine.view.outOfMemory id = true →
        s.engine.view.outOfMemory id = true ∨ t.Exceeds id)
      s.Justifies := by
  rw [produceInMemory]
  refine ((requirements_ends hs hn _).and (neutral_requirements _ s)).andThen ?_
    fun _ _ h => Site.justifies_of_not h.2
  rintro order t ⟨⟨rfl, ho, hcheck⟩, -⟩
  have hfits (d : NodeId) (hd : d ∈ order) : t.engine.view.outOfMemory d = false := by
    obtain ⟨m, hm, hcomp⟩ := hcheck d (List.mem_append_left _ hd)
    exact outOfMemory_of_check hs hm hcomp
  have hdeps (d : NodeId) (hd : d ∈ order) : t.engine.graph.DependsOn id d ∧ d < t.engine.graph.size :=
    ⟨((ho.mem_iff d).1 hd).1.dependsOn, Nat.lt_trans (ho.lt hs.graph hd) (Graph.lt_size_of_node? hn)⟩
  refine ((firstTooLarge_ends hM hs hidle hdeps).and
    (firstTooLarge_weighs hM hW hs hn hidle ho (List.nil_append order).symm (.refl _ _)
      (by simp) hfits)).andThen ?_ fun _ _ h => h.2
  rintro r u ⟨⟨hp, -⟩, hfound⟩
  have known : u.engine.view.outOfMemory id = t.engine.view.outOfMemory id := by
    rw [Site.outOfMemory_eq, hp.keeps.above id (Nat.le_refl _)]
    rfl
  cases r with
  | none =>
    refine (neutral_evaluateNode u).mono (fun _ v hv h => .inl ?_) fun _ _ =>
      Site.justifies_of_not
    rwa [hv.outOfMemory, known] at h
  | some dep =>
    obtain ⟨hmem, hout, hr, hexceeds⟩ := hfound dep rfl
    have hnu : u.engine.graph.node? id = some n := by rwa [hp.keeps.graph]
    rw [ends_bind, ends_node hnu, ends_bind, ends_get]
    refine Ends.ite (fun _ => ?_) fun _ => ?_
    · refine (produceInStore_weighs hM hW (hp.sound hs) hnu (.inr ⟨dep, hout⟩) fun j hj => ?_).mono
        (fun _ v hv => known ▸ hv) fun _ _ he => he.of_keeps hp.keeps
      exact (hp.computing j).trans (hidle j hj)
    · obtain ⟨m, hm⟩ := Graph.node?_isSome (hdeps dep hmem).2
      have hm' : u.engine.graph.node? dep = some m := by rwa [hp.keeps.graph]
      obtain ⟨st, hst⟩ := (hp.sound hs).known hm'
      rw [ends_tooLarge hst hm']
      refine fun _ => ⟨dep, ⟨m, st, hm', hst, ?_, hr, rfl⟩, hexceeds, hfits dep hmem⟩
      rwa [Site.outOfMemory_eq, hst] at hout

/-- **A materialization finds a result too large only if it is.** -/
theorem materializeWithin_weighs (fuel : Nat) : Weighs fuel fuel := by
  induction fuel with
  | zero => exact fun h => absurd h (Nat.not_lt_zero _)
  | succ fuel ih =>
    intro s id n hid hs hn hc hidle
    have hle : id ≤ fuel := Nat.le_of_lt_succ hid
    have hM : Materializes (materializeWithin fuel) id := Materializes.mono (materializeWithin_ends fuel) hle
    have hW : Weighs fuel id := fun hlt => ih (Nat.lt_of_lt_of_le hlt hle)
    obtain ⟨st, hst⟩ := hs.known hn
    rw [materializeWithin, ends_bind, ends_node hn, if_neg (by simp [hc]), ends_bind,
      ends_state hst, ends_bind, ends_get]
    refine Ends.ite (fun _ h => .inl h) fun _ => Ends.ite (fun _ => ?_) fun _ =>
      Ends.ite (fun _ => ?_) fun _ => ?_
    · exact (measures_readBack s).mono (fun _ _ ht => ht.2) fun _ _ => Site.justifies_of_not
    · exact ends_bind.2 ((ends_node hn).2 (Site.justifies_of_not not_false))
    refine ((backendFor_ends hs hn).and (neutral_ask_plan _ s)).andThen ?_
      fun _ _ h => Site.justifies_of_not h.2
    rintro b t ⟨⟨rfl, hu, -⟩, -⟩
    have start : Move t id (t.modify id (.flagged true)) := .flag true
    have hidle' (j : NodeId) (hj : j < id) :
        (t.modify id (.flagged true)).computing j = false := by
      rw [Site.computing_modify_ne (Nat.ne_of_gt hj)]
      exact hidle j (Nat.le_of_lt hj)
    rw [ends_bind, ends_updateState hst, ends_finally]
    have produced : Ends (produce (materializeWithin fuel) id b) (t.modify id (.flagged true))
        (fun _ u => u.engine.view.outOfMemory id = true →
          (t.modify id (.flagged true)).engine.view.outOfMemory id = true ∨ u.Exceeds id)
        (t.modify id (.flagged true)).Justifies := by
      cases b with
      | inMemory => exact produceInMemory_weighs hM hW (start.sound hs) hn hidle'
      | relational =>
        exact produceInStore_weighs hM hW (start.sound hs) hn (start.keeps.mayUseStore (hu rfl))
          hidle'
    refine produced.mono (fun _ u hu => ?_) fun e u he => ?_
    · refine updateState_ends (fun _ _ h => ?_) fun _ => Site.justifies_of_not
      exact (hu ((u.outOfMemory_flagged id false id).symm.trans h)).imp
        (fun h => (t.outOfMemory_flagged id true id).symm.trans h) Site.Exceeds.flagged
    · refine updateState_ends (fun _ _ => ?_) fun _ => Site.justifies_of_not
      exact (he.of_keeps start.keeps).flagged

/-- **What a computation reports as too large** is a result in the store. It exceeds what is free, unless
it had been found too large before, in which case it is the one that was asked for. -/
theorem compute_weighs (hs : s.AtRest) :
    Ends (compute id) s (fun _ _ => True) fun e t => e.IsTooLarge →
      ∃ d, t.Blames d e ∧ (s.engine.view.outOfMemory d = true → d = id) ∧
        (s.engine.view.outOfMemory d = false → t.Exceeds d) := by
  rw [compute, materialize, ends_bind, ends_bind, ends_get]
  cases hn : s.engine.graph.node? id with
  | none =>
    rw [materializeWithin, ends_bind]
    exact (ends_node_unknown hn).2 fun h => by cases h
  | some n =>
    cases hc : n.op.isContainer with
    | true =>
      rw [materializeWithin, ends_bind, ends_node hn, if_pos hc]
      exact fun h => by cases h
    | false =>
      have hlt : id < s.engine.graph.size + 1 := Nat.lt_succ_of_lt (Graph.lt_size_of_node? hn)
      have hidle : ∀ j, j ≤ id → s.computing j = false := fun j _ => hs.idle j
      refine ((materializeWithin_ends _ hlt hs.sound hn hc hidle).and
        (materializeWithin_weighs _ hlt hs.sound hn hc hidle)).mono ?_ ?_
      · rintro - t ⟨⟨hp, hsettled⟩, hweighed⟩
        have hn' : t.engine.graph.node? id = some n := by rwa [hp.keeps.graph]
        obtain ⟨st, hst⟩ := (hp.sound hs.sound).known hn'
        rw [ends_bind, ends_state hst]
        cases hcached : st.cached with
        | some c => trivial
        | none =>
          obtain ⟨ho, hr⟩ := hsettled.resolve_left fun hi => by
            rw [Site.inMemory_eq, hst, Option.any_some, hcached] at hi
            cases hi
          dsimp only
          rw [ends_tooLarge hst hn']
          refine fun _ => ⟨id, ⟨n, st, hn', hst, ?_, hr, rfl⟩, fun _ => rfl, fun hs => ?_⟩
          · rwa [Site.outOfMemory_eq, hst] at ho
          · exact (hweighed ho).resolve_left fun h => by simp [hs] at h
      · rintro e t ⟨-, he⟩ hlarge
        obtain ⟨d, hb, hx, hs⟩ := he hlarge
        exact ⟨d, hb, fun h => by simp [hs] at h, fun _ => hx⟩

end Engine

/-! ## What has been found too large remains so -/

/-- Of a result that was too large, the estimate remains. -/
theorem NodeState.Step.estimated {st st' : NodeState} (h : st.Step st') (ho : st.outOfMemory = true) :
    st'.outOfMemory = true ∧ st'.estimated = st.estimated := by
  cases h with
  | tooLarge _ _ _ _ ho' => simp [ho] at ho'
  | flagged | kept | loaded | created => exact ⟨ho, rfl⟩

namespace Site

/-- The result of the node has been found too large, with this estimate. -/
def TooLarge (s : Site) (i : NodeId) (estimated : UInt64) : Prop :=
  ∃ st, s.known? i = some st ∧ st.outOfMemory = true ∧ st.estimated = estimated

theorem exists_tooLarge {s : Site} {i : NodeId} (h : s.engine.view.outOfMemory i = true) :
    ∃ estimated, s.TooLarge i estimated := by
  rw [outOfMemory_eq, Option.any_eq_true] at h
  obtain ⟨st, hst, ho⟩ := h
  exact ⟨_, st, hst, ho, rfl⟩

namespace TooLarge

variable {s t : Site} {i : NodeId} {estimated : UInt64}

/-- What was too large for memory is not there. -/
theorem inMemory (h : s.TooLarge i estimated) (hc : s.Coherent) :
    s.engine.view.inMemory i = false := by
  obtain ⟨st, hst, ho, -⟩ := h
  rw [inMemory_eq, hst, Option.any_some, Bool.eq_false_iff]
  intro hcached
  rw [(hc i st hst).fits hcached] at ho
  cases ho

theorem move {id : NodeId} (h : s.TooLarge i estimated) (hm : Move s id t) :
    t.TooLarge i estimated := by
  obtain ⟨st, hst, ho, rfl⟩ := h
  obtain ⟨st', hst', -⟩ := hm.keeps.grows hst
  obtain ⟨st₀, hst₀, hstep⟩ := hm.known hst'
  obtain rfl : st = st₀ := Option.some.inj (hst.symm.trans hst₀)
  rcases hstep with rfl | hstep
  · exact ⟨st', hst', ho, rfl⟩
  · exact ⟨st', hst', hstep.estimated ho⟩

theorem moves {bound : NodeId} (h : s.TooLarge i estimated) (hm : Moves bound s t) :
    t.TooLarge i estimated := by
  induction hm with
  | refl => exact h
  | tail _ hm ih =>
    obtain ⟨j, -, hm⟩ := hm
    exact ih.move hm

theorem turn {e : Option NodeId} {x : Option Table} (h : s.TooLarge i estimated) (hs : s.Sound)
    (ht : s.Turn e x t) : t.TooLarge i estimated := by
  obtain ⟨st, hst, ho, hest⟩ := h
  have hi : i < s.engine.states.size := (Array.getElem?_eq_some_iff.1 hst).1
  have grown (g : Graph) : (s.grown g).known? i = some st := (known?_grown_old hi).trans hst
  cases ht with
  | computed h => exact moves ⟨st, hst, ho, hest⟩ h.moves
  | built g hg h => exact moves ⟨st, grown g, ho, hest⟩ h.moves
  | supplied y g hg m z hw =>
    exact ⟨st, (known?_modify_ne (Nat.ne_of_gt (hs.size ▸ hi)) _).trans (grown g), ho, hest⟩
  | @evicted id =>
    by_cases hne : id = i
    · subst hne
      exact ⟨_, known?_modify_self (by exact hst) _, ho, hest⟩
    · exact ⟨st, (known?_modify_ne hne _).trans hst, ho, hest⟩
  | configured | remounted => exact ⟨st, hst, ho, hest⟩

/-- **A result that was too large remains so**, with its estimate, whatever the engine is asked for. -/
theorem run {P : Site → Prop} {base base' : BaseTables} (h : s.TooLarge i estimated) (hs : s.AtRest)
    (ht : Run P s base t base') : t.TooLarge i estimated :=
  ht.rec_turn (motive := fun t _ => t.TooLarge i estimated) hs h (fun hu ht _ h => h.turn hu.sound ht)
    fun _ h => h

end TooLarge

theorem Step.coherent {s t : Site} {x : Option Table} (h : s.Step x t) (hs : s.AtRest)
    (hc : s.Coherent) : t.Coherent := by
  cases h with
  | done o h => exact ((o.run_ends hs).of_ok h).coherent hs.sound hc
  | failed o h => exact ((o.run_ends hs).of_error h).coherent hs.sound hc
  | elsewhere => exact hc

theorem Reached.coherent {P : Site → Prop} {s : Site} (h : Reached P s) : s.Coherent := by
  induction h with
  | start hd h _ => exact Engine.start_coherent hd h
  | step h hst _ ih => exact hst.coherent h.atRest ih

end Site

namespace Engine

variable {s t : Site} {id : NodeId} {n : Node} {estimated : UInt64}

/-- **A result that has been too large is refused again**, with the old estimate and with what is free
now, as long as it is in the store. -/
theorem compute_of_tooLarge (hs : s.AtRest) (hc : s.Coherent) (h : s.TooLarge id estimated)
    (hn : s.engine.graph.node? id = some n) (hr : s.engine.view.relational id = true) :
    compute id s = .error (.resultTooLarge n.name estimated s.engine.available) s := by
  have hcont : n.op.isContainer = false := by
    rw [Bool.eq_false_iff]
    intro hcont
    simp [(hs.sound.skipsGroupings hn hcont).2] at hr
  have hi := h.inMemory hc
  obtain ⟨st, hst, ho, rfl⟩ := h
  have hcached : st.cached = none := Move.cached_of_inMemory hst hi
  have refused : Ends (compute id) s (fun _ _ => False) fun e t =>
      t = s ∧ e = .resultTooLarge n.name st.estimated s.engine.available := by
    rw [compute, materialize, ends_bind, ends_bind, ends_get, materializeWithin, ends_bind,
      ends_node hn, if_neg (by simp [hcont]), ends_bind, ends_state hst, ends_bind, ends_get,
      if_pos (by simp [ho, hr]), ends_pure, ends_bind, ends_state hst, hcached]
    dsimp only
    rw [ends_tooLarge hst hn]
    exact ⟨rfl, rfl⟩
  obtain ⟨e, t, hx, rfl, rfl⟩ := refused.exists_error
  exact hx

/-- **What is refused as too large is too large, or has been.** The result that the error names has been
left in the store, with the estimate that the error gives, and as much is free as it says. If it is
found to be too large now, the estimate exceeds what is free. Otherwise it is the one asked for, and it
is refused with the estimate of then, whatever is free. From now on it is refused in this way, whatever
the engine has been asked for meanwhile, as long as it is in the store. -/
theorem compute_refuses (hs : Site.Reached (fun _ => True) s) {name : String}
    {estimated available : UInt64}
    (hx : compute id s = .error (.resultTooLarge name estimated available) t) :
    ∃ d, t.Blames d (.resultTooLarge name estimated available) ∧ t.engine.view.inMemory d = false ∧
      (s.engine.view.outOfMemory d = false → available < estimated) ∧
      (s.engine.view.outOfMemory d = true → d = id ∧ s.TooLarge d estimated) ∧
      ∀ {base u base'}, Site.Run (fun _ => True) t base u base' →
        u.engine.view.relational d = true →
          compute d u = .error (.resultTooLarge name estimated u.engine.available) u := by
  have hrest := hs.atRest
  obtain ⟨d, ⟨n, st, hn, hst, ho, hr, herror⟩, hself, hexceeds⟩ :=
    (compute_weighs hrest).of_error hx trivial
  obtain ⟨rfl, rfl, rfl⟩ := EngineError.resultTooLarge.inj herror
  have failed : (Operation.compute id).run s =
      .error (.resultTooLarge n.name st.estimated t.engine.available) t := by
    simp only [Operation.run, bind, EStateM.bind, hx]
  have ht : Site.Reached (fun _ => True) t := hs.step (.failed _ failed) trivial
  have hlarge : t.TooLarge d st.estimated := ⟨st, hst, ho, rfl⟩
  refine ⟨d, ⟨n, st, hn, hst, ho, hr, rfl⟩, hlarge.inMemory ht.coherent, fun hd => ?_,
    fun hd => ⟨hself hd, ?_⟩, fun hrun hru => ?_⟩
  · obtain ⟨st', hst', hlt⟩ := hexceeds hd
    rwa [← Option.some.inj (hst.symm.trans hst')] at hlt
  · -- The result was in the store already: its estimate is the one of then.
    obtain ⟨_, hbefore⟩ := Site.exists_tooLarge hd
    obtain ⟨_, hp⟩ := (compute_progress hrest).of_error hx
    obtain ⟨st', hst', -, hest⟩ := hbefore.moves hp.moves
    obtain rfl : st = st' := Option.some.inj (hst.symm.trans hst')
    exact hest ▸ hbefore
  · have hu := hlarge.run ht.atRest hrun
    exact compute_of_tooLarge (hrun.atRest ht.atRest) (hrun.coherent ht.atRest ht.coherent) hu
      ((hrun.grows ht.atRest).1.node hn) hru

/-- A result is found too large for what is free, and still refused when another one has been evicted. -/
theorem refused_after_eviction : ∃ s, Site.Reached (fun _ => True) s ∧
    ∃ t, compute 2 s = .error (.resultTooLarge "ta_2" 33 57) t := by
  have run : ∃ s₀,
      start .empty "a" ((Config.standard.withStrategy .always).withMemoryCap 90) = .ok s₀ ∧
        ∃ t, compute 2 (s₀.after [.addTable ⟨[⟨"k", [.int 1]⟩]⟩, .build (.limit 0 1),
          .build (.limit 0 1), .compute 1, .compute 2, .evict 1]) =
            .error (.resultTooLarge "ta_2" 33 57) t :=
    ⟨_, rfl, by decide +kernel⟩
  obtain ⟨s₀, hstart, h⟩ := run
  exact ⟨_, .after (.start Disk.valid_empty hstart trivial) _, h⟩

theorem compute_refuses_evicted : ∃ (s t : Site) (d : NodeId),
    compute 2 s = .error (.resultTooLarge "ta_2" 33 57) t ∧ t.engine.view.outOfMemory d = true ∧
      compute d t = .error (.resultTooLarge "ta_2" 33 t.engine.available) t := by
  obtain ⟨s, hs, t, h⟩ := refused_after_eviction
  obtain ⟨d, hblames, -, -, -, hrefused⟩ := compute_refuses hs h
  obtain ⟨n, st, -, hst, ho, hr, -⟩ := hblames
  refine ⟨s, t, d, h, ?_, hrefused (.refl : Site.Run _ t (fun _ => none) t _) hr⟩
  rwa [Site.outOfMemory_eq, hst]

/-- What is refused need not exceed what is free. -/
theorem refused_although_fitting : ∃ (s t : Site) (name : String) (estimated available : UInt64),
    Site.Reached (fun _ => True) s ∧
      compute 2 s = .error (.resultTooLarge name estimated available) t ∧ ¬available < estimated := by
  obtain ⟨s, hs, t, h⟩ := refused_after_eviction
  exact ⟨s, t, _, _, _, hs, h, by decide⟩

end Engine
end LazyQuery
