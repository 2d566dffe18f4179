import LazyQuery.Proofs.Engine.Scripts
import LazyQuery.Proofs.Sql.Queries

/-!
# Scripts that follow operations

The script of an operation does what the operation does, if nobody else uses the disk, and every
statement that it sends names tables of the engine's own nodes only. `Script.Follows` says both at once, of
engines whose graph has a given tag, and the lemmas about it go along the forms of programs: what follows
step by step follows as a whole.

* `Engine.Quiet` says of an operation that it has nothing to do with the disk.
* `Graph.isTableName_of_query` says that the query of a node names tables of nodes.
* `Request.follows` is the main result.
-/

set_option autoImplicit false

namespace LazyQuery

open Sql

/-- The name is that of a table of some node in a graph with the tag. -/
def Graph.IsTableName (tag name : String) : Prop := ∃ i, name = (Graph.empty tag).tableName i

theorem Graph.tableName_of_tag (g : Graph) (i : NodeId) :
    g.tableName i = (Graph.empty g.tag).tableName i := rfl

/-- The graph of the engine is well-formed and has the tag. -/
structure Engine.Bears (tag : String) (e : Engine) : Prop where
  graph : e.graph.WellFormed
  tag : e.graph.tag = tag

/-! ## Operations that leave the disk alone -/

namespace Engine

variable {α β : Type} {tag : String}

theorem outcome_bind (x : EngineM α) (f : α → EngineM β) (s : Site) :
    outcome ((x >>= f) s) =
      match outcome (x s) with
      | (.ok a, t) => outcome (f a t)
      | (.error err, t) => (.error err, t) := by
  simp only [bind, EStateM.bind]
  cases x s <;> rfl

theorem outcome_ask (f : Engine → Except EngineError α) (s : Site) :
    outcome (ask f s) = (f s.engine, s) := by
  rw [ask, bind]
  dsimp only [Monad.toBind, EStateM.instMonad, EStateM.bind, get, getThe, MonadStateOf.get, EStateM.get]
  cases f s.engine <;> rfl

/-- The operation has nothing to do with the disk, and it keeps the graph well-formed under its tag. -/
def Quiet (tag : String) (x : EngineM α) : Prop :=
  ∀ e, e.Bears tag → ∃ r e', Bears tag e' ∧ ∀ d, outcome (x ⟨d, e⟩) = (r, ⟨d, e'⟩)

theorem quiet_pure (a : α) : Quiet tag (pure a) := fun e he => ⟨.ok a, e, he, fun _ => rfl⟩

theorem quiet_throw (err : EngineError) : Quiet tag (throw err : EngineM α) :=
  fun e he => ⟨.error err, e, he, fun _ => rfl⟩

theorem quiet_update {f : Engine → Engine} (hf : ∀ e, (f e).graph = e.graph) : Quiet tag (update f) :=
  fun e he => ⟨.ok (), f e, ⟨(hf e).symm ▸ he.graph, (congrArg Graph.tag (hf e)).trans he.tag⟩,
    fun _ => rfl⟩

theorem quiet_ask (f : Engine → Except EngineError α) : Quiet tag (ask f) :=
  fun e he => ⟨f e, e, he, fun _ => outcome_ask f _⟩

theorem Quiet.bind {x : EngineM α} {f : α → EngineM β} (hx : Quiet tag x)
    (hf : ∀ a, Quiet tag (f a)) : Quiet tag (x >>= f) := by
  intro e he
  obtain ⟨r, e', he', h⟩ := hx e he
  cases r with
  | error err => exact ⟨.error err, e', he', fun d => by rw [outcome_bind, h]⟩
  | ok a =>
    obtain ⟨r', e'', he'', h'⟩ := hf a e' he'
    exact ⟨r', e'', he'', fun d => by rw [outcome_bind, h]; exact h' d⟩

/-- What hangs on the engine alone does not hang on the disk. -/
theorem Quiet.get {f : Site → EngineM α} (h : ∀ s, Quiet tag (f s))
    (hf : ∀ d e, f ⟨d, e⟩ = f ⟨.empty, e⟩) : Quiet tag (get >>= f) := by
  intro e he
  obtain ⟨r, e', he', ho⟩ := h ⟨.empty, e⟩ e he
  exact ⟨r, e', he', fun d => (congrArg (fun x => outcome (x ⟨d, e⟩)) (hf d e)).trans (ho d)⟩

theorem quiet_node (id : NodeId) : Quiet tag (node id) := quiet_ask _

theorem quiet_state (id : NodeId) : Quiet tag (state id) := quiet_ask _

theorem quiet_updateState (id : NodeId) (f : NodeState → NodeState) : Quiet tag (updateState id f) :=
  (quiet_state id).bind fun _ => quiet_update fun _ => rfl

theorem quiet_budget (g : Guard) (b : Budget) :
    Quiet tag (do update fun e => { e with budget := b }; pure g) :=
  Quiet.bind (quiet_update (f := fun e => { e with budget := b }) fun _ => rfl) fun _ => quiet_pure g

theorem quiet_acquireUnchecked (bytes : UInt64) (what : String) :
    Quiet tag (acquireUnchecked bytes what) :=
  .get (fun _ => quiet_budget _ _) fun _ _ => rfl

theorem quiet_acquire (bytes : UInt64) (what : String) : Quiet tag (acquire bytes what) :=
  (quiet_ask _).bind fun _ => quiet_budget _ _

theorem quiet_resize (g : Guard) (bytes : UInt64) : Quiet tag (resize g bytes) :=
  .get (fun _ => quiet_budget _ _) fun _ _ => rfl

theorem quiet_release (g : Guard) : Quiet tag (release g) := quiet_update fun _ => rfl

theorem quiet_keep (id : NodeId) (rows : UInt64) (value : Result) (guard : Guard) :
    Quiet tag (keep id rows value guard) :=
  quiet_updateState id _

theorem quiet_markRelational (id : NodeId) : Quiet tag (markRelational id) :=
  .get (fun _ => quiet_updateState id _) fun _ _ => rfl

theorem quiet_count (f : StoreCounters → StoreCounters) : Quiet tag (onStore (Store.count f)) :=
  fun e he => ⟨.ok (), { e with store := { e.store with counters := f e.store.counters } },
    ⟨he.graph, he.tag⟩, fun _ => rfl⟩

theorem quiet_evaluateNode (id : NodeId) : Quiet tag (evaluateNode id) :=
  (quiet_ask _).bind fun _ => (quiet_acquireUnchecked _ _).bind fun _ => quiet_keep _ _ _ _

theorem quiet_requirements (id : NodeId) (b : Backend) : Quiet tag (requirements id b) := quiet_ask _

theorem quiet_tooLarge (id : NodeId) : Quiet tag (tooLarge id : EngineM α) :=
  (quiet_state id).bind fun _ => (quiet_node id).bind fun _ =>
    .get (fun _ => quiet_throw _) fun _ _ => rfl

theorem quiet_refuseReentry (id : NodeId) : Quiet tag (refuseReentry id) :=
  (quiet_node id).bind fun _ => quiet_throw _

theorem quiet_evict (id : NodeId) : Quiet tag (evict id) := by
  refine (quiet_node id).bind fun n => (quiet_state id).bind fun s => ?_
  cases s.cached with
  | none => exact quiet_pure _
  | some c =>
    dsimp only
    split
    · exact quiet_pure _
    · exact (quiet_release _).bind fun _ => (quiet_updateState _ _).bind fun _ => quiet_pure _

/-- A constructor keeps the graph well-formed. -/
theorem quiet_build {f : Graph → Graph.Built}
    (hf : ∀ g r, g.WellFormed → f g = .ok r → g.Adds r) : Quiet tag (build f) := by
  intro e he
  cases hr : f e.graph with
  | error err =>
    refine ⟨.error (.plan err), e, he, fun d => ?_⟩
    rw [build, outcome_bind, outcome_ask, hr]
    rfl
  | ok r =>
    have hadds := hf e.graph r he.graph hr
    refine ⟨.ok r.1, (Site.grown ⟨.empty, e⟩ r.2).engine,
      ⟨hadds.wellFormed he.graph, hadds.extends.tag.trans he.tag⟩, fun d => ?_⟩
    rw [build, outcome_bind, outcome_ask, hr]
    rfl

end Engine

/-! ## Courses that name tables of one tag -/

namespace Course

variable {α β : Type} {tag : String}

/-- Every statement names tables of graphs with the tag, and the engine ends with such a graph. -/
def Within (tag : String) : Course α → Prop
  | ended _ e => e.Bears tag
  | sends p _ next => (∀ n ∈ p.names, Graph.IsTableName tag n) ∧ ∀ a, (next a).Within tag

theorem Within.andThen {c : Course α} {f : Except EngineError α → Engine → Course β}
    (h : c.Within tag) (hf : ∀ r e, e.Bears tag → (f r e).Within tag) : (c.andThen f).Within tag := by
  induction c with
  | ended r e => exact hf r e h
  | sends p e next ih => exact ⟨h.1, fun a => ih a (h.2 a)⟩

theorem Within.bears_on {c : Course α} (h : c.Within tag) (d : Disk) : (c.on d).2.engine.Bears tag := by
  induction c generalizing d with
  | ended r e => exact h
  | sends p e next ih => exact ih _ (h.2 _) _

end Course

/-! ## Scripts that follow operations -/

namespace Script

open Engine

variable {α β : Type} {tag : String} {x : EngineM α} {X : Script α}

/-- On engines whose graph has the tag, the script does what the operation does, and it names tables of
such graphs only. -/
structure Follows (tag : String) (X : Script α) (x : EngineM α) : Prop where
  on : ∀ e d, e.Bears tag → (X e).on d = outcome (x ⟨d, e⟩)
  within : ∀ e, e.Bears tag → (X e).Within tag

theorem follows_pure (a : α) : Follows tag (pure a) (pure a) := ⟨fun _ _ _ => rfl, fun _ he => he⟩

theorem follows_throw (err : EngineError) : Follows tag (throw err : Script α) (throw err) :=
  ⟨fun _ _ _ => rfl, fun _ he => he⟩

theorem follows_ended (r : Except EngineError α) :
    Follows tag (fun e => .ended r e) (ask fun _ => r) :=
  ⟨fun e d _ => (outcome_ask (fun _ => r) ⟨d, e⟩).symm, fun _ he => he⟩

theorem follows_lift (hx : Quiet tag x) : Follows tag (lift x) x := by
  refine ⟨fun e d he => ?_, fun e he => ?_⟩
  · obtain ⟨r, e', -, h⟩ := hx e he
    rw [lift, Course.on, h, h]
  · obtain ⟨r, e', he', h⟩ := hx e he
    rw [lift, Course.Within, h]
    exact he'

theorem follows_send {p : Statement} (hp : ∀ n ∈ p.names, Graph.IsTableName tag n) :
    Follows tag (send p) (onStore p.run) := by
  refine ⟨fun e d _ => ?_, fun e he => ⟨hp, fun _ => he⟩⟩
  rw [send, Course.on, Course.on]
  simp only [onStore, EStateM.run, Statement.run]
  generalize p.send e.store d = c
  obtain ⟨r, d'⟩ := c
  cases r <;> rfl

/-- Go on after a result in one way, and after a failure in another. -/
def resume {α β : Type} (ok : α → EngineM β) (failed : EngineError → EngineM β) :
    Except EngineError α → EngineM β
  | .ok a => ok a
  | .error err => failed err

namespace Follows

/-- One script after another, whatever the first has ended in. -/
theorem andThen {F : Except EngineError α → Script β} {f : Except EngineError α → EngineM β}
    {y : EngineM β} (hx : Follows tag X x) (hf : ∀ r, Follows tag (F r) (f r))
    (hy : ∀ s, outcome (y s) = outcome (f (outcome (x s)).1 (outcome (x s)).2)) :
    Follows tag (fun e => (X e).andThen F) y := by
  refine ⟨fun e d he => ?_, fun e he => (hx.within e he).andThen fun r => (hf r).within⟩
  refine (Course.on_andThen _ _ _).trans ?_
  rw [hy, ← hx.on e d he]
  exact (hf _).on _ _ ((hx.within e he).bears_on d)

theorem bind {f : α → EngineM β} {F : α → Script β} (hx : Follows tag X x)
    (hf : ∀ a, Follows tag (F a) (f a)) : Follows tag (X >>= F) (x >>= f) := by
  refine andThen (f := resume f throw) hx (fun r => ?_) fun s => ?_
  · cases r with
    | ok a => exact hf a
    | error err => exact follows_throw err
  · rw [outcome_bind]
    cases x s <;> rfl

theorem tryCatch {handle : EngineError → EngineM α} {H : EngineError → Script α}
    (hx : Follows tag X x) (hh : ∀ err, Follows tag (H err) (handle err)) :
    Follows tag (tryCatch X H) (tryCatch x handle) := by
  refine andThen (f := resume pure handle) hx (fun r => ?_) fun s => ?_
  · cases r with
    | ok a => exact follows_pure a
    | error err => exact hh err
  · simp only [MonadExcept.tryCatch, tryCatchThe, MonadExceptOf.tryCatch, EStateM.tryCatch]
    cases x s <;> rfl

theorem finallyDo {y : EngineM Unit} {Y : Script Unit} (hx : Follows tag X x)
    (hy : Follows tag Y y) : Follows tag (finallyDo X Y) (tryFinally x y) := by
  -- The end of `x` is put back after `y`, unless `y` fails.
  refine andThen (f := fun r => y >>= fun _ => ask fun _ => r) hx (fun r => ?_) fun s => ?_
  · refine andThen (f := resume (fun _ => ask fun _ => r) throw) hy (fun r' => ?_) fun s => ?_
    · cases r' with
      | ok _ => exact follows_ended r
      | error err => exact follows_throw err
    · rw [outcome_bind]
      cases y s <;> rfl
  · rw [outcome_bind]
    simp only [tryFinally, tryFinally', Functor.map, EStateM.map, outcome_ask]
    cases x s with
    | ok a t => dsimp only [outcome]; cases y t <;> rfl
    | error e t => dsimp only [outcome]; cases y t <;> rfl

/-- A question has an answer that the engine gives. -/
theorem ask_bind {f : Engine → Except EngineError α} {k : α → EngineM β} {K : α → Script β}
    (h : ∀ e a, e.Bears tag → f e = .ok a → Follows tag (K a) (k a)) :
    Follows tag (lift (ask f) >>= K) (ask f >>= k) := by
  have found {e : Engine} {a : α} (ha : f e = .ok a) : (lift (ask f) >>= K) e = K a e := by
    change (lift (ask f) e).andThen _ = _
    rw [lift, outcome_ask, ha]
    rfl
  have failed {e : Engine} {err : EngineError} (ha : f e = .error err) :
      (lift (ask f) >>= K) e = .ended (.error err) e := by
    change (lift (ask f) e).andThen _ = _
    rw [lift, outcome_ask, ha]
    rfl
  refine ⟨fun e d he => ?_, fun e he => ?_⟩
  · rw [outcome_bind, outcome_ask]
    cases ha : f e with
    | ok a =>
      rw [found ha]
      exact (h e a he ha).on e d he
    | error err =>
      rw [failed ha]
      rfl
  · cases ha : f e with
    | ok a =>
      rw [found ha]
      exact (h e a he ha).within e he
    | error err =>
      rw [failed ha]
      exact he

/-- A node has the name of a table. -/
theorem node_bind {id : NodeId} {k : Node → EngineM β} {K : Node → Script β}
    (h : ∀ n, Graph.IsTableName tag n.name → Follows tag (K n) (k n)) :
    Follows tag (lift (node id) >>= K) (node id >>= k) := by
  refine ask_bind fun e n he hn => h n ⟨id, ?_⟩
  have hn := Graph.node_eq_ok.1 (mapError_eq_ok.1 hn)
  rw [Graph.name_of_node? he.graph hn, Graph.tableName_of_tag, he.tag]

theorem engine_bind {k : Site → EngineM β} {K : Engine → Script β}
    (h : ∀ s, Follows tag (K s.engine) (k s)) : Follows tag (engine >>= K) (get >>= k) :=
  ⟨fun e d he => (h ⟨d, e⟩).on e d he, fun e he => (h ⟨.empty, e⟩).within e he⟩

theorem ite {c : Prop} [Decidable c] {y : EngineM α} {Y : Script α} (hx : Follows tag X x)
    (hy : Follows tag Y y) : Follows tag (if c then X else Y) (if c then x else y) := by
  split
  · exact hx
  · exact hy

/-- A program that first fails under some condition. -/
theorem throwIf {c : Prop} [Decidable c] {err : EngineError} (hx : Follows tag X x) :
    Follows tag (if c then (throw err : Script PUnit) >>= fun _ => X else X)
      (if c then (throw err : EngineM PUnit) >>= fun _ => x else x) :=
  ite ((follows_throw err).bind fun _ => hx) hx

theorem forM {γ : Type} {f : γ → EngineM PUnit} {F : γ → Script PUnit}
    (h : ∀ c, Follows tag (F c) (f c)) (cs : List γ) : Follows tag (cs.forM F) (cs.forM f) := by
  induction cs with
  | nil => exact follows_pure _
  | cons c cs ih => exact (h c).bind fun _ => ih

end Follows
end Script

/-! ## Names in queries -/

namespace Graph

variable {g : Graph} {id : NodeId}

theorem hasStatement_of_compound {n : Node} (hn : g.node? id = some n) {body : Compound}
    (h : g.compound id = .ok body) : n.op.hasStatement = true := by
  rw [compound, node_eq_ok.2 hn, ok_bind] at h
  obtain ⟨i, name, op, schema⟩ := n
  cases op <;> first | rfl | cases h

/-- The statement of a node reads tables of nodes. -/
theorem isTableName_of_compound (hg : g.WellFormed) {body : Compound} (h : g.compound id = .ok body) :
    ∀ name ∈ body.names, IsTableName g.tag name := by
  intro name hname
  obtain ⟨n, hn, -⟩ := bind_eq_ok.1 h
  have hn := node_eq_ok.1 hn
  obtain ⟨body', hbody', hnames⟩ := compound_spec hg hn (hasStatement_of_compound hn h)
  obtain rfl := Except.ok.inj (h.symm.trans hbody')
  rw [hnames] at hname
  obtain ⟨d, -, rfl⟩ := List.mem_map.1 hname
  exact ⟨d, rfl⟩

/-- **The query of a node names tables of nodes only.** -/
theorem isTableName_of_query (hg : g.WellFormed) {v : View} {q : Query} (hq : g.query id v = .ok q) :
    ∀ name ∈ q.sourceNames, IsTableName g.tag name := by
  intro name hname
  have hcompound : ∃ body, g.compound id = .ok body := by
    obtain ⟨order, -, h⟩ := bind_eq_ok.1 hq
    obtain ⟨named, -, h⟩ := bind_eq_ok.1 h
    obtain ⟨body, hbody, -⟩ := bind_eq_ok.1 h
    exact ⟨body, hbody⟩
  obtain ⟨body, hbody⟩ := hcompound
  obtain ⟨n, hn, -⟩ := bind_eq_ok.1 hbody
  obtain ⟨hbody, hnamed⟩ := defines_of_query hg (node_eq_ok.1 hn) hq
  rcases List.mem_append.1 hname with hname | hname
  · obtain ⟨p, hp, hname⟩ := List.mem_flatMap.1 hname
    obtain ⟨d, -, -, -, -, -, -, hd⟩ := hnamed p hp
    exact isTableName_of_compound hg hd name hname
  · exact isTableName_of_compound hg hbody name hname

end Graph

/-! ## Operations of the store -/

theorem Engine.onStore_bind {α β : Type} (x : StoreM α) (f : α → StoreM β) :
    onStore (x >>= f) = onStore x >>= fun a => onStore (f a) := by
  funext s
  simp only [onStore, bind, EStateM.bind, EStateM.run]
  cases x ⟨s.disk, s.engine.store⟩ <;> rfl

namespace Script

open Engine

variable {tag name : String}

theorem follows_count (f : StoreCounters → StoreCounters) :
    Follows tag (count f) (onStore (Store.count f)) :=
  follows_lift (quiet_count f)

section

variable (hn : Graph.IsTableName tag name)

include hn

/-- A statement that has one name in it. -/
theorem follows_send_one (p : Statement) (hp : p.names = [name]) :
    Follows tag (send p) (onStore p.run) :=
  follows_send (hp ▸ List.forall_mem_singleton.2 hn)

theorem follows_createTableAs {q : Query} (hq : ∀ n ∈ q.sourceNames, Graph.IsTableName tag n) :
    Follows tag (createTableAs name q) (onStore (Store.createTableAs name q)) := by
  rw [Statement.createTableAs_eq, onStore_bind]
  refine (follows_send_one hn (.drop name) rfl).bind fun _ => ?_
  rw [onStore_bind]
  refine (follows_send (p := .createAs name q) ?_).bind fun _ => follows_count _
  exact List.forall_mem_cons.2 ⟨hn, hq⟩

theorem follows_bulkLoad (t : Table) (s : Schema) :
    Follows tag (bulkLoad name t s) (onStore (Store.bulkLoad name t s)) := by
  rw [Statement.bulkLoad_eq, onStore_bind]
  refine (follows_send_one hn (.drop name) rfl).bind fun _ => ?_
  rw [onStore_bind]
  refine (follows_send_one hn (.create name s) rfl).bind fun _ => ?_
  rw [onStore_bind]
  exact (follows_send_one hn (.insert name t) rfl).bind fun _ => follows_count _

theorem follows_readTable (columns : List String) :
    Follows tag (readTable name columns) (onStore (Store.readTable name columns)) := by
  rw [Store.readTable, ← Statement.run_read, onStore_bind]
  refine (follows_send_one hn (.read name columns) rfl).bind fun t => ?_
  rw [onStore_bind]
  exact (follows_count _).bind fun _ => follows_pure t

theorem follows_rowCount : Follows tag (send (.count name)) (onStore (Store.rowCount name)) := by
  rw [← Statement.run_count]
  exact follows_send_one hn (.count name) rfl

end

/-! ## Computations -/

theorem follows_offload (id : NodeId) : Follows tag (offload id) (Engine.offload id) :=
  (follows_lift (quiet_ask _)).bind fun _ => .node_bind fun n hn =>
    (follows_lift (quiet_ask _)).bind fun t => (follows_bulkLoad hn t n.schema).bind fun _ =>
      follows_lift (quiet_markRelational id)

theorem follows_createRelational (id : NodeId) :
    Follows tag (createRelational id) (Engine.createRelational id) := by
  -- The names in the query are those of the graph that it was written for.
  refine .ask_bind fun e q he hq => .node_bind fun n hn => ?_
  have hq := he.tag ▸ Graph.isTableName_of_query he.graph (mapError_eq_ok.1 hq)
  refine (follows_createTableAs hn hq).bind fun _ => (follows_rowCount hn).bind fun rows => ?_
  exact (follows_lift (quiet_markRelational id)).bind fun _ => follows_lift (quiet_updateState id _)

theorem follows_readIfFits (id : NodeId) {n : Node} (hn : Graph.IsTableName tag n.name)
    (rows : UInt64) : Follows tag (readIfFits id n rows) (Engine.readIfFits id n rows) := by
  refine .engine_bind fun s => .ite (follows_lift (quiet_updateState id _)) ?_
  refine (follows_lift (quiet_acquire _ _)).bind fun guard => ?_
  refine ((follows_readTable hn n.columns).tryCatch fun err => ?_).bind fun t => ?_
  · exact (follows_lift (quiet_release guard)).bind fun _ => follows_throw err
  · exact (follows_lift (quiet_resize _ _)).bind fun _ => follows_lift (quiet_keep _ _ _ _)

theorem follows_readBack (id : NodeId) : Follows tag (readBack id) (Engine.readBack id) := by
  refine .node_bind fun n hn => (follows_lift (quiet_state id)).bind fun s => ?_
  cases s.rows with
  | some rows => exact follows_readIfFits id hn rows
  | none => exact (follows_rowCount hn).bind fun rows => follows_readIfFits id hn _

section

variable {m : NodeId → EngineM Unit} {M : NodeId → Script Unit} (hm : ∀ id, Follows tag (M id) (m id))

include hm

theorem follows_supply (dep : NodeId) : Follows tag (supply M dep) (Engine.supply m dep) := by
  refine .node_bind fun n _ => .engine_bind fun s => ?_
  refine .ite (follows_pure _) (.ite (.ite (follows_pure _) (follows_offload dep)) ?_)
  refine .ite (follows_pure _) (.ite (follows_createRelational dep) ?_)
  refine (hm dep).bind fun _ => .engine_bind fun s => ?_
  exact .ite (follows_pure _) (follows_offload dep)

theorem follows_produceInStore (id : NodeId) :
    Follows tag (produceInStore M id) (Engine.produceInStore m id) := by
  refine (follows_lift (quiet_requirements id _)).bind fun order => ?_
  refine (Follows.forM (follows_supply hm) order).bind fun _ => ?_
  refine (follows_createRelational id).bind fun _ => .engine_bind fun s => ?_
  exact .ite (follows_pure _) (follows_readBack id)

theorem follows_firstTooLarge (order : List NodeId) :
    Follows tag (firstTooLarge M order) (Engine.firstTooLarge m order) := by
  induction order with
  | nil => exact follows_pure none
  | cons dep rest ih =>
    refine .node_bind fun n _ => .ite ih ((hm dep).bind fun _ => .engine_bind fun s => ?_)
    exact .ite ih (follows_pure _)

theorem follows_produceInMemory (id : NodeId) :
    Follows tag (produceInMemory M id) (Engine.produceInMemory m id) := by
  refine (follows_lift (quiet_requirements id _)).bind fun order => ?_
  refine (follows_firstTooLarge hm order).bind fun found => ?_
  cases found with
  | none => exact follows_lift (quiet_evaluateNode id)
  | some dep =>
    refine .node_bind fun n _ => .engine_bind fun s => ?_
    exact .ite (follows_produceInStore hm id) (follows_lift (quiet_tooLarge dep))

theorem follows_produce (id : NodeId) (b : Backend) :
    Follows tag (produce M id b) (Engine.produce m id b) := by
  cases b with
  | inMemory => exact follows_produceInMemory hm id
  | relational => exact follows_produceInStore hm id

end

theorem follows_materializeWithin (fuel : Nat) (id : NodeId) :
    Follows tag (materializeWithin fuel id) (Engine.materializeWithin fuel id) := by
  induction fuel generalizing id with
  | zero => exact follows_lift (quiet_refuseReentry id)
  | succ fuel ih =>
    -- What is produced on the way is materialized with less fuel.
    refine .node_bind fun n _ => .throwIf ?_
    refine (follows_lift (quiet_state id)).bind fun s => .engine_bind fun t => ?_
    refine .ite (follows_pure _) (.ite (follows_readBack id) ?_)
    refine .ite (follows_lift (quiet_refuseReentry id)) ((follows_lift (quiet_ask _)).bind fun b => ?_)
    refine (follows_lift (quiet_updateState id _)).bind fun _ => ?_
    exact (follows_produce ih id b).finallyDo (follows_lift (quiet_updateState id _))

theorem follows_materialize (id : NodeId) : Follows tag (materialize id) (Engine.materialize id) :=
  .engine_bind fun _ => follows_materializeWithin _ id

theorem follows_compute (id : NodeId) : Follows tag (compute id) (Engine.compute id) := by
  refine (follows_materialize id).bind fun _ => (follows_lift (quiet_state id)).bind fun s => ?_
  cases s.cached with
  | none => exact follows_lift (quiet_tooLarge id)
  | some c => exact follows_pure c.value

theorem follows_addTable (t : Table) : Follows tag (addTable t) (Engine.addTable t) := by
  refine (follows_lift (quiet_build fun _ _ _ => Graph.addSource_adds)).bind fun id => ?_
  refine .node_bind fun n hn => (follows_bulkLoad hn _ _).bind fun _ => ?_
  refine (follows_lift (quiet_acquireUnchecked _ _)).bind fun guard => ?_
  refine (follows_lift (quiet_markRelational id)).bind fun _ => ?_
  exact (follows_lift (quiet_keep _ _ _ _)).bind fun _ => follows_pure id

end Script

/-- **The script of a request does what the request does, and names tables of the engine's own nodes
only.** -/
theorem Request.follows (r : Request) (tag : String) : Script.Follows tag r.script r.answer := by
  cases r with
  | build c =>
    exact (Script.follows_lift (Engine.quiet_build fun g r hg => c.adds hg)).bind fun _ =>
      Script.follows_pure _
  | addTable t => exact (Script.follows_addTable t).bind fun _ => Script.follows_pure _
  | compute id => exact (Script.follows_compute id).bind fun _ => Script.follows_pure _
  | evict id =>
    exact (Script.follows_lift (Engine.quiet_evict id)).bind fun _ => Script.follows_pure _
  | setStrategy strategy | setCostModel model =>
    refine (Script.follows_lift (Engine.quiet_update ?_)).bind fun _ => Script.follows_pure _
    exact fun _ => rfl

end LazyQuery
