import LazyQuery.Engine.Compute
import LazyQuery.Proofs.Graph.WellFormed

/-!
# Single steps of the engine

How each of the small steps ends that operations of the engine are made of: questions, changes of
what is known of a node, acquisitions and releases of memory, operations of the store. A step that
is about a node of the graph finds what it asks for.
-/

set_option autoImplicit false

namespace LazyQuery

/-- Record that the store has a table of the result. -/
def NodeState.marked (generation : Nat) (st : NodeState) : NodeState :=
  { st with relational := some generation }

/-- Keep a result with its guard. -/
def NodeState.keeping (rows : UInt64) (value : Result) (g : Guard) (st : NodeState) : NodeState :=
  { st with rows := some rows, cached := some ⟨value, g⟩ }

/-- Set or clear the flag that the result is being computed. -/
def NodeState.flagged (b : Bool) (st : NodeState) : NodeState := { st with computing := b }

namespace Site

/-- The disk and the store. -/
def mounted (s : Site) : Mounted := ⟨s.disk, s.engine.store⟩

/-- The site with another disk and store. -/
def withMounted (s : Site) (m : Mounted) : Site := ⟨m.disk, { s.engine with store := m.store }⟩

/-- The site with another budget. -/
def withBudget (s : Site) (b : Budget) : Site := { s with engine := { s.engine with budget := b } }

/-- The site with something else known of a node. -/
def modify (s : Site) (id : NodeId) (f : NodeState → NodeState) : Site :=
  { s with engine := { s.engine with states := s.engine.states.modify id f } }

/-- What is known of a node. -/
def known? (s : Site) (id : NodeId) : Option NodeState := s.engine.states[id]?

variable {s : Site}

@[simp] theorem mounted_withMounted (s : Site) (m : Mounted) : (s.withMounted m).mounted = m := rfl

@[simp] theorem withMounted_mounted (s : Site) : s.withMounted s.mounted = s := rfl

@[simp] theorem known?_withMounted (s : Site) (m : Mounted) (i : NodeId) :
    (s.withMounted m).known? i = s.known? i := rfl

@[simp] theorem known?_withBudget (s : Site) (b : Budget) (i : NodeId) :
    (s.withBudget b).known? i = s.known? i := rfl

theorem known?_modify (s : Site) (id i : NodeId) (f : NodeState → NodeState) :
    (s.modify id f).known? i = if id = i then (s.known? i).map f else s.known? i :=
  Array.getElem?_modify

theorem known?_modify_self {id : NodeId} {st : NodeState} (h : s.known? id = some st)
    (f : NodeState → NodeState) : (s.modify id f).known? id = some (f st) := by
  rw [known?_modify, if_pos rfl, h]
  rfl

theorem known?_modify_ne {id i : NodeId} (h : id ≠ i) (f : NodeState → NodeState) :
    (s.modify id f).known? i = s.known? i := by
  rw [known?_modify, if_neg h]

/-- What is known after a change was known before, or is what the change has made of it. -/
theorem of_known?_modify {id i : NodeId} {f : NodeState → NodeState} {st' : NodeState}
    (h : (s.modify id f).known? i = some st') :
    i = id ∧ (∃ st, s.known? id = some st ∧ st' = f st) ∨ i ≠ id ∧ s.known? i = some st' := by
  by_cases hi : id = i
  · subst hi
    rw [known?_modify, if_pos rfl, Option.map_eq_some_iff] at h
    obtain ⟨st, hst, rfl⟩ := h
    exact .inl ⟨rfl, st, hst, rfl⟩
  · exact .inr ⟨Ne.symm hi, (known?_modify_ne hi f).symm.trans h⟩

theorem modify_modify (s : Site) (id : NodeId) (f g : NodeState → NodeState) :
    (s.modify id f).modify id g = s.modify id fun st => g (f st) := by
  have : (s.engine.states.modify id f).modify id g =
      s.engine.states.modify id fun st => g (f st) := by
    refine Array.ext (by simp) fun i _ _ => ?_
    by_cases h : id = i <;> simp [Array.getElem_modify, h]
  simp only [modify, this]

theorem modify_of_known? {id : NodeId} {st : NodeState} {f : NodeState → NodeState}
    (hst : s.known? id = some st) (hf : f st = st) : s.modify id f = s := by
  have : s.engine.states.modify id f = s.engine.states := by
    refine Array.ext (by simp) fun i _ hi => ?_
    rw [Array.getElem_modify]
    split
    · rename_i h
      subst h
      obtain ⟨_, rfl⟩ := Array.getElem?_eq_some_iff.1 hst
      exact hf
    · rfl
  rw [Site.modify, this]

@[simp] theorem size_modify (s : Site) (id : NodeId) (f : NodeState → NodeState) :
    (s.modify id f).engine.states.size = s.engine.states.size :=
  Array.size_modify

/-! ## What is seen of a site -/

theorem inMemory_eq (s : Site) (i : NodeId) :
    s.engine.view.inMemory i = (s.known? i).any fun st => st.cached.isSome := rfl

theorem relational_eq (s : Site) (i : NodeId) : s.engine.view.relational i =
    (s.known? i).any fun st => st.relational == some s.engine.store.generation := rfl

theorem outOfMemory_eq (s : Site) (i : NodeId) :
    s.engine.view.outOfMemory i = (s.known? i).any fun st => st.outOfMemory := rfl

theorem any_known?_modify {id i : NodeId} {f : NodeState → NodeState} {test : NodeState → Bool}
    (hf : ∀ st, test (f st) = test st) :
    ((s.modify id f).known? i).any test = (s.known? i).any test := by
  rw [known?_modify]
  by_cases h : id = i
  · rw [if_pos h, Option.any_map]
    exact congrArg (Option.any · _) (funext hf)
  · rw [if_neg h]

theorem relational_modify {id i : NodeId} {f : NodeState → NodeState}
    (hf : ∀ st, (f st).relational = st.relational) :
    (s.modify id f).engine.view.relational i = s.engine.view.relational i :=
  any_known?_modify fun st => by rw [hf]

theorem inMemory_modify {id i : NodeId} {f : NodeState → NodeState}
    (hf : ∀ st, (f st).cached = st.cached) :
    (s.modify id f).engine.view.inMemory i = s.engine.view.inMemory i :=
  any_known?_modify fun st => by rw [hf]

theorem outOfMemory_modify {id i : NodeId} {f : NodeState → NodeState}
    (hf : ∀ st, (f st).outOfMemory = st.outOfMemory) :
    (s.modify id f).engine.view.outOfMemory i = s.engine.view.outOfMemory i :=
  any_known?_modify fun st => by rw [hf]

theorem relational_flagged (s : Site) (id : NodeId) (b : Bool) (i : NodeId) :
    (s.modify id (.flagged b)).engine.view.relational i = s.engine.view.relational i :=
  relational_modify fun _ => rfl

theorem inMemory_flagged (s : Site) (id : NodeId) (b : Bool) (i : NodeId) :
    (s.modify id (.flagged b)).engine.view.inMemory i = s.engine.view.inMemory i :=
  inMemory_modify fun _ => rfl

theorem outOfMemory_flagged (s : Site) (id : NodeId) (b : Bool) (i : NodeId) :
    (s.modify id (.flagged b)).engine.view.outOfMemory i = s.engine.view.outOfMemory i :=
  outOfMemory_modify fun _ => rfl

/-- Is a node being computed? -/
def computing (s : Site) (i : NodeId) : Bool := (s.known? i).any fun st => st.computing

theorem computing_modify_ne {id i : NodeId} (h : id ≠ i) (f : NodeState → NodeState) :
    (s.modify id f).computing i = s.computing i := by
  rw [computing, known?_modify_ne h]
  rfl

end Site

namespace Engine

variable {α : Type} {s : Site} {id : NodeId}

theorem ends_ask {f : Engine → Except EngineError α} {Q : α → Site → Prop}
    {E : EngineError → Site → Prop} :
    Ends (ask f) s Q E ↔
      match f s.engine with
      | .ok a => Q a s
      | .error e => E e s := by
  rw [ask, ends_bind, ends_get]
  cases f s.engine <;> rfl

@[simp] theorem ends_update {f : Engine → Engine} {Q : PUnit → Site → Prop}
    {E : EngineError → Site → Prop} :
    Ends (update f) s Q E ↔ Q ⟨⟩ { s with engine := f s.engine } :=
  Iff.rfl

theorem ends_onStore {x : StoreM α} {Q : α → Site → Prop} {E : EngineError → Site → Prop} :
    Ends (onStore x) s Q E ↔
      Ends x s.mounted (fun a m => Q a (s.withMounted m))
        fun e m => E (.store e) (s.withMounted m) := by
  simp only [Ends, onStore, EStateM.run, Site.mounted]
  cases x ⟨s.disk, s.engine.store⟩ <;> rfl

theorem ends_node {n : Node} (hn : s.engine.graph.node? id = some n) {Q : Node → Site → Prop}
    {E : EngineError → Site → Prop} : Ends (node id) s Q E ↔ Q n s := by
  rw [node, ends_ask, Graph.node_eq_ok.2 hn]
  rfl

theorem ends_node_unknown (hn : s.engine.graph.node? id = none) {Q : Node → Site → Prop}
    {E : EngineError → Site → Prop} :
    Ends (node id) s Q E ↔ E (.plan (.invariant (.unknownNode id))) s := by
  rw [node, ends_ask, Graph.node, hn]
  rfl

theorem ends_state {st : NodeState} (hs : s.known? id = some st) {Q : NodeState → Site → Prop}
    {E : EngineError → Site → Prop} : Ends (state id) s Q E ↔ Q st s := by
  rw [state, ends_ask, stateOf, show s.engine.states[id]? = some st from hs]
  rfl

theorem ends_updateState {st : NodeState} (hs : s.known? id = some st) {f : NodeState → NodeState}
    {Q : PUnit → Site → Prop} {E : EngineError → Site → Prop} :
    Ends (updateState id f) s Q E ↔ Q ⟨⟩ (s.modify id f) := by
  rw [updateState, ends_bind, ends_state hs, ends_update]
  rfl

theorem ends_acquireUnchecked {bytes : UInt64} {tag : String} {Q : Guard → Site → Prop}
    {E : EngineError → Site → Prop} :
    Ends (acquireUnchecked bytes tag) s Q E ↔
      Q ⟨bytes, tag⟩ (s.withBudget (s.engine.budget.reserve bytes)) :=
  Iff.rfl

theorem ends_acquire {bytes : UInt64} {tag : String} {Q : Guard → Site → Prop}
    {E : EngineError → Site → Prop} :
    Ends (acquire bytes tag) s Q E ↔
      match s.engine.budget.acquire bytes tag with
      | .ok r => Q r.1 (s.withBudget r.2)
      | .error e => E (.budget e) s := by
  rw [acquire, ends_bind, ends_ask]
  cases s.engine.budget.acquire bytes tag <;> rfl

theorem ends_resize {g : Guard} {bytes : UInt64} {Q : Guard → Site → Prop}
    {E : EngineError → Site → Prop} :
    Ends (resize g bytes) s Q E ↔
      Q (s.engine.budget.resizeUnchecked g bytes).1
        (s.withBudget (s.engine.budget.resizeUnchecked g bytes).2) :=
  Iff.rfl

theorem ends_release {g : Guard} {Q : PUnit → Site → Prop} {E : EngineError → Site → Prop} :
    Ends (release g) s Q E ↔ Q ⟨⟩ (s.withBudget (s.engine.budget.release g)) :=
  Iff.rfl

theorem ends_guarding {g : Guard} {x : EngineM α} {Q : α → Site → Prop}
    {E : EngineError → Site → Prop} :
    Ends (guarding g x) s Q E ↔
      Ends x s Q fun e t => E e (t.withBudget (t.engine.budget.release g)) := by
  rw [guarding, ends_tryCatch]
  rfl

theorem ends_keep {st : NodeState} (hs : s.known? id = some st) {rows : UInt64} {value : Result}
    {g : Guard} {Q : PUnit → Site → Prop} {E : EngineError → Site → Prop} :
    Ends (keep id rows value g) s Q E ↔
      Q ⟨⟩ (s.modify id (.keeping rows value g)) :=
  ends_updateState hs

theorem ends_markRelational {st : NodeState} (hs : s.known? id = some st)
    {Q : PUnit → Site → Prop} {E : EngineError → Site → Prop} :
    Ends (markRelational id) s Q E ↔
      Q ⟨⟩ (s.modify id (.marked s.engine.store.generation)) := by
  rw [markRelational, ends_bind, ends_get, ends_updateState hs]
  rfl

theorem ends_tooLarge {st : NodeState} (hs : s.known? id = some st) {n : Node}
    (hn : s.engine.graph.node? id = some n) {Q : α → Site → Prop} {E : EngineError → Site → Prop} :
    Ends (tooLarge id) s Q E ↔ E (.resultTooLarge n.name st.estimated s.engine.available) s := by
  rw [tooLarge, ends_bind, ends_state hs, ends_bind, ends_node hn, ends_bind, ends_get]
  rfl

end Engine
end LazyQuery
