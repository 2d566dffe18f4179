import LazyQuery.Proofs.Engine.States

/-!
# How results are measured

Only when a result is read back is it measured and possibly found too large. Here is what that means for the
steps that concern one node.

* A step is `Neutral` if it finds no result too large and does not say that one is. All steps but the reading
  back are, and so is what is made of them (`Neutral.bind`).
* An operation `Measures` a node if it can find the result of this node too large, but only if it is, and
  no other one.
* `Site.Blames` and `Site.Exceeds` say what an error about a result that is too large has to do with what
  is known of the node, and `Site.Justifies` that such an error is right.
-/

set_option autoImplicit false

namespace LazyQuery

/-- Does the error say that a result is too large for memory? -/
def EngineError.IsTooLarge : EngineError → Prop
  | resultTooLarge _ _ _ => True
  | _ => False

namespace Site

/-- In between, no result has been found too large, and none has gone from memory. -/
structure KeepsFlags (s t : Site) : Prop where
  graph : t.engine.graph = s.engine.graph
  inMemory : ∀ j, s.engine.view.inMemory j = true → t.engine.view.inMemory j = true
  outOfMemory : ∀ j, t.engine.view.outOfMemory j = s.engine.view.outOfMemory j

/-- No result but that of the node has been found too large in between. -/
def FlagsOnly (s : Site) (id : NodeId) (t : Site) : Prop :=
  ∀ j, j ≠ id → t.engine.view.outOfMemory j = s.engine.view.outOfMemory j

/-- What is estimated for the result of the node exceeds what is free. -/
def Exceeds (t : Site) (id : NodeId) : Prop :=
  ∃ st, t.known? id = some st ∧ t.engine.available < st.estimated

/-- The error is about the node: its result has been left in the store as too large, with the
estimate that the error gives and as much free as it says. -/
def Blames (t : Site) (id : NodeId) (e : EngineError) : Prop :=
  ∃ n st, t.engine.graph.node? id = some n ∧ t.known? id = some st ∧ st.outOfMemory = true ∧
    t.engine.view.relational id = true ∧
    e = .resultTooLarge n.name st.estimated t.engine.available

/-- If the error says that a result is too large, this has been found out since, and it is. -/
def Justifies (s : Site) (e : EngineError) (t : Site) : Prop :=
  e.IsTooLarge → ∃ d, t.Blames d e ∧ t.Exceeds d ∧ s.engine.view.outOfMemory d = false

/-- Whatever a node needs in memory is there, but for groupings. -/
def Provides (s : Site) (id : NodeId) : Prop :=
  ∀ d, s.engine.graph.Required .inMemory s.engine.view id d →
    s.engine.graph.Has (·.isContainer) d ∨ s.engine.view.inMemory d = true

variable {s t u : Site} {e : EngineError} {id : NodeId}

theorem KeepsFlags.refl (s : Site) : s.KeepsFlags s := ⟨rfl, fun _ h => h, fun _ => rfl⟩

theorem KeepsFlags.trans (h : s.KeepsFlags t) (h' : t.KeepsFlags u) : s.KeepsFlags u :=
  ⟨h'.graph.trans h.graph, fun j hj => h'.inMemory j (h.inMemory j hj),
    fun j => (h'.outOfMemory j).trans (h.outOfMemory j)⟩

theorem justifies_of_not (h : ¬e.IsTooLarge) : s.Justifies e t := fun h' => absurd h' h

theorem Justifies.of_keeps {bound : NodeId} (h : t.Justifies e u) (hk : s.Keeps bound t) :
    s.Justifies e u := fun he => by
  obtain ⟨d, hb, hx, ho⟩ := h he
  exact ⟨d, hb, hx, Bool.eq_false_iff.2 fun h => by simp [hk.outOfMemory h] at ho⟩

theorem view_flagged (s : Site) (id : NodeId) (b : Bool) :
    (s.modify id (.flagged b)).engine.view = s.engine.view := by
  have rows : (s.modify id (.flagged b)).engine.view.knownRows = s.engine.view.knownRows := by
    funext i
    change ((s.modify id (.flagged b)).known? i).bind (·.rows) = (s.known? i).bind (·.rows)
    rw [known?_modify]
    split
    · cases s.known? i <;> rfl
    · rfl
  exact View.mk.injEq .. ▸ ⟨funext (s.inMemory_flagged id b), funext (s.relational_flagged id b),
    funext (s.outOfMemory_flagged id b), rows⟩

/-- To come under computation changes neither what is too large nor what is free. -/
theorem known?_flagged (id : NodeId) (b : Bool) {i : NodeId} {st : NodeState}
    (h : s.known? i = some st) :
    ∃ st', (s.modify id (.flagged b)).known? i = some st' ∧ st'.outOfMemory = st.outOfMemory ∧
      st'.estimated = st.estimated := by
  by_cases hi : id = i
  · subst hi
    exact ⟨_, known?_modify_self h _, rfl, rfl⟩
  · exact ⟨st, (known?_modify_ne hi _).trans h, rfl, rfl⟩

theorem Exceeds.flagged {b : Bool} {i : NodeId} (h : t.Exceeds i) :
    (t.modify id (.flagged b)).Exceeds i := by
  obtain ⟨st, hst, hlt⟩ := h
  obtain ⟨st', hst', -, hest⟩ := known?_flagged id b hst
  exact ⟨st', hst', hest ▸ hlt⟩

theorem Justifies.flagged {b : Bool} (h : s.Justifies e t) :
    s.Justifies e (t.modify id (.flagged b)) := fun he => by
  obtain ⟨d, ⟨n, st, hn, hst, ho, hr, rfl⟩, hx, hs⟩ := h he
  obtain ⟨st', hst', ho', hest⟩ := known?_flagged id b hst
  refine ⟨d, ⟨n, st', hn, hst', ho'.trans ho, ?_, by rw [hest]; rfl⟩, hx.flagged, hs⟩
  exact (t.relational_flagged id b d).trans hr

end Site

namespace Engine

variable {α β : Type} {s t : Site} {id : NodeId} {n : Node}

/-! ## Steps that measure nothing -/

/-- The operation finds no result too large: it flags none, and fails for other reasons only. -/
def Neutral (x : EngineM α) : Prop :=
  ∀ s, Ends x s (fun _ t => s.KeepsFlags t) fun e _ => ¬e.IsTooLarge

theorem neutral_pure (a : α) : Neutral (pure a : EngineM α) := fun s => .refl s

theorem neutral_get : Neutral (get : EngineM Site) := fun s => .refl s

theorem Neutral.bind {x : EngineM α} {f : α → EngineM β} (hx : Neutral x)
    (hf : ∀ a, Neutral (f a)) : Neutral (x >>= f) := fun s =>
  (hx s).andThen (fun a t ht => (hf a t).mono (fun _ _ hu => ht.trans hu) fun _ _ he => he)
    fun _ _ he => he

theorem neutral_ask {f : Engine → Except EngineError α}
    (h : ∀ e, FailsOnly (fun err => ¬err.IsTooLarge) (f e)) : Neutral (ask f) := fun s => by
  rw [ends_ask]
  cases hf : f s.engine with
  | ok a => exact .refl s
  | error e => exact h _ e hf

theorem neutral_ask_plan (f : Engine → Except PlanError α) : Neutral (ask fun e => liftM (f e)) :=
  neutral_ask fun _ => FailsOnly.mapError fun _ _ h => h

theorem neutral_ask_frame (f : Engine → Except FrameError α) :
    Neutral (ask fun e => liftM (f e)) :=
  neutral_ask fun _ => FailsOnly.mapError fun _ _ h => h

theorem stateOf_failsOnly (e : Engine) (id : NodeId) :
    FailsOnly (fun err => ¬err.IsTooLarge) (e.stateOf id) := by
  unfold stateOf
  split
  · exact failsOnly_ok _
  · exact failsOnly_error.2 not_false

theorem cachedValue_failsOnly (e : Engine) (id : NodeId) :
    FailsOnly (fun err => ¬err.IsTooLarge) (e.cachedValue id) := by
  refine (stateOf_failsOnly e id).bind fun st _ => ?_
  split
  · exact failsOnly_ok _
  · exact FailsOnly.bind (FailsOnly.mapError fun _ _ h => h) fun _ _ =>
      failsOnly_error.2 not_false

theorem neutral_onStore (x : StoreM α) : Neutral (onStore x) := fun _ =>
  ends_onStore.2 (ends_iff.2 ⟨fun _ _ _ => ⟨rfl, fun _ h => h, fun _ => rfl⟩, fun _ _ _ h => h⟩)

theorem neutral_updateState {f : NodeState → NodeState}
    (hf : ∀ st, (f st).outOfMemory = st.outOfMemory)
    (hc : ∀ st, st.cached.isSome = true → (f st).cached.isSome = true) :
    Neutral (updateState id f) :=
  (neutral_ask fun e => stateOf_failsOnly e id).bind fun _ s => by
    refine ⟨rfl, fun j hj => ?_, fun j => Site.outOfMemory_modify hf⟩
    change (s.modify id f).engine.view.inMemory j = true
    rw [Site.inMemory_eq, Option.any_eq_true] at hj ⊢
    obtain ⟨st, hst, hsome⟩ := hj
    by_cases hi : id = j
    · subst hi
      exact ⟨f st, Site.known?_modify_self hst f, hc st hsome⟩
    · exact ⟨st, (Site.known?_modify_ne hi f).trans hst, hsome⟩

theorem neutral_flagged (id : NodeId) (b : Bool) : Neutral (updateState id (.flagged b)) :=
  neutral_updateState (fun _ => rfl) fun _ h => h

theorem neutral_markRelational : Neutral (markRelational id) :=
  neutral_get.bind fun _ => neutral_updateState (fun _ => rfl) fun _ h => h

theorem neutral_keep (rows : UInt64) (value : Result) (g : Guard) :
    Neutral (keep id rows value g) :=
  neutral_updateState (fun _ => rfl) fun _ _ => rfl

theorem neutral_withBudget (f : Budget → α × Budget) :
    Neutral (do
      let r := f (← get).engine.budget
      update fun e => { e with budget := r.2 }
      pure r.1) :=
  fun _ => ⟨rfl, fun _ h => h, fun _ => rfl⟩

theorem neutral_offload : Neutral (offload id) :=
  (neutral_ask fun e => cachedValue_failsOnly e id).bind fun _ =>
    (neutral_ask_plan _).bind fun _ => (neutral_ask_frame _).bind fun _ =>
      (neutral_onStore _).bind fun _ => neutral_markRelational

theorem neutral_createRelational : Neutral (createRelational id) :=
  (neutral_ask_plan _).bind fun _ => (neutral_ask_plan _).bind fun _ =>
    (neutral_onStore _).bind fun _ => (neutral_onStore _).bind fun _ =>
      neutral_markRelational.bind fun _ => neutral_updateState (fun _ => rfl) fun _ h => h

theorem neutral_evaluateNode : Neutral (evaluateNode id) :=
  (neutral_ask fun e => Graph.evaluate_passes (fun _ h => h) (fun _ h => h)
    (cachedValue_failsOnly e) id).bind fun v =>
      (neutral_withBudget fun b => b.acquireUnchecked v.footprint "eval").bind fun _ =>
        neutral_keep _ _ _

theorem neutral_requirements (b : Backend) : Neutral (requirements id b) :=
  neutral_ask fun _ => FailsOnly.bind (FailsOnly.mapError fun _ _ h => h) fun _ _ =>
    FailsOnly.mapError fun _ _ h => h

/-! ## Reading back -/

/-- A change of what is known of a node is made, unless there is no such node. -/
theorem updateState_ends {f : NodeState → NodeState} {Q : PUnit → Site → Prop}
    {E : EngineError → Site → Prop} (hQ : ∀ st, s.known? id = some st → Q ⟨⟩ (s.modify id f))
    (hE : ∀ e, ¬e.IsTooLarge → E e s) : Ends (updateState id f) s Q E := by
  cases hst : s.known? id with
  | some st => exact (ends_updateState hst).2 (hQ st hst)
  | none =>
    refine ends_bind.2 (ends_ask.2 ?_)
    rw [stateOf, show s.engine.states[id]? = none from hst]
    exact hE _ not_false

/-- The operation can find the result of this node too large, and no other one. -/
def Measures (id : NodeId) (x : EngineM α) : Prop :=
  ∀ s, Ends x s
    (fun _ t => s.FlagsOnly id t ∧
      (t.engine.view.outOfMemory id = true → s.engine.view.outOfMemory id = true ∨ t.Exceeds id))
    fun e _ => ¬e.IsTooLarge

theorem Neutral.measures {x : EngineM α} (h : Neutral x) : Measures id x := fun s =>
  (h s).mono (fun _ _ ht => ⟨fun j _ => ht.outOfMemory j, fun ho => .inl (ht.outOfMemory id ▸ ho)⟩)
    fun _ _ he => he

theorem Neutral.andThen {x : EngineM α} {f : α → EngineM β} (hx : Neutral x)
    (hf : ∀ a, Measures id (f a)) : Measures id (x >>= f) := fun s =>
  (hx s).andThen
    (fun a t ht => (hf a t).mono
      (fun _ _ ⟨hother, hself⟩ => ⟨fun j hj => (hother j hj).trans (ht.outOfMemory j),
        fun ho => (hself ho).imp_left fun h => ht.outOfMemory id ▸ h⟩) fun _ _ he => he)
    fun _ _ he => he

theorem measures_readIfFits (rows : UInt64) : Measures id (readIfFits id n rows) := by
  intro s
  rw [readIfFits, ends_bind, ends_get]
  refine Ends.ite (fun hlarge => ?_) fun _ => ?_
  · refine updateState_ends (fun st hst => ⟨fun j hj => ?_, fun _ => .inr ?_⟩) fun _ h => h
    · rw [Site.outOfMemory_eq, Site.known?_modify_ne (Ne.symm hj)]
      rfl
    · exact ⟨_, Site.known?_modify_self hst _, hlarge⟩
  · refine Neutral.measures ?_ s
    refine Neutral.bind (x := acquire _ _) ?_ fun g => Neutral.bind (x := guarding g _) ?_ fun t =>
      (neutral_withBudget fun b => b.resizeUnchecked g _).bind fun _ => neutral_keep _ _ _
    · exact (neutral_ask fun e => FailsOnly.mapError (f := EngineError.budget) fun _ _ h => h).bind fun r =>
        fun _ => ⟨rfl, fun _ h => h, fun _ => rfl⟩
    · exact fun s => ends_guarding.2 (neutral_onStore _ s)

theorem measures_readBack : Measures id (readBack id) :=
  (neutral_ask_plan _).andThen fun n => (neutral_ask fun e => stateOf_failsOnly e id).andThen
    fun st => by
      cases hrows : st.rows with
      | some rows => exact measures_readIfFits rows
      | none => exact (neutral_onStore _).andThen fun rows => measures_readIfFits _

/-- A table is created and read back, unless its result is known to be too large. -/
theorem measures_createAndRead : Measures id (do
    createRelational id
    unless (← get).engine.view.outOfMemory id do readBack id) :=
  neutral_createRelational.andThen fun _ => neutral_get.andThen fun s => by
    split
    · exact (neutral_pure _).measures
    · exact measures_readBack

end Engine
end LazyQuery
