import LazyQuery.Proofs.Engine.Run
import LazyQuery.Session

/-!
# Sessions on one disk

The operations of sessions and frames are made of operations of engines, all on one disk. Sessions may
share a database file: their tags differ, and with them the names of their tables, so that for each
session the others are `Elsewhere`. Thus an engine of a workspace has been reached by a run of its own,
whatever the other sessions do (`Reached.site`).

* `Workspace.Stays` says of an operation that it leads from workspaces that can be reached to such. All
  operations of sessions and frames do.
* `compute_admits` is the main result: the computation of a frame never fails with an error of the engine
  itself.
-/

set_option autoImplicit false

namespace LazyQuery

theorem Site.AtRest.elsewhere_of_keepsBut {s : Site} (hs : s.AtRest) {d : Disk}
    {own : String → Prop} (h : s.disk.KeepsBut own d)
    (ho : ∀ id, ¬own (s.engine.graph.tableName id)) : s.Elsewhere d :=
  ⟨h.valid hs.files, h.size, fun c hc id => h.table c (hs.sound.valid c hc) _ (ho id)⟩

namespace Workspace

/-- The engine of a session. -/
def engine? (w : Workspace) (k : SessionId) : Option Engine := w.engines[k]?

/-- A sequence of operations of sessions leads from the empty workspace to this one. -/
inductive Reached : Workspace → Prop
  | empty : Reached .empty
  | session {w w' : Workspace} {tag : String} {config : Config} {k : SessionId} (h : Reached w)
      (hfresh : ∀ {j e}, w.engine? j = some e → Sql.sameName e.graph.tag tag = false)
      (hs : addSession tag config w = .ok k w') : Reached w'
  | done {w w' : Workspace} {k : SessionId} {o : Operation} (h : Reached w)
      (ho : onEngine k o.run w = .ok ⟨⟩ w') : Reached w'
  | failed {w w' : Workspace} {k : SessionId} {o : Operation} {e : EngineError} (h : Reached w)
      (ho : onEngine k o.run w = .error e w') : Reached w'

/-- Every session has been reached by a run of its own, and their tags differ. -/
structure Separate (w : Workspace) : Prop where
  files : w.disk.Valid
  site : ∀ {k e}, w.engine? k = some e → Site.Reached (fun _ => True) ⟨w.disk, e⟩
  tags : ∀ {j k e e'}, w.engine? j = some e → w.engine? k = some e' → j ≠ k →
    Sql.sameName e.graph.tag e'.graph.tag = false

variable {w w' : Workspace} {k : SessionId}

theorem ends_onEngine {α : Type} {x : EngineM α} {e : Engine} (he : w.engine? k = some e)
    {Q : α → Workspace → Prop} {E : EngineError → Workspace → Prop} :
    Ends (onEngine k x) w Q E ↔
      Ends x ⟨w.disk, e⟩ (fun a s => Q a ⟨s.disk, w.engines.setIfInBounds k s.engine⟩)
        fun err s => E err ⟨s.disk, w.engines.setIfInBounds k s.engine⟩ := by
  rw [engine?] at he
  simp only [Ends, onEngine, he, EStateM.run]
  cases x ⟨w.disk, e⟩ <;> rfl

theorem onEngine_eq_ok {α : Type} {x : EngineM α} {a : α} :
    onEngine k x w = .ok a w' ↔ ∃ e t, w.engine? k = some e ∧ x ⟨w.disk, e⟩ = .ok a t ∧
      w' = ⟨t.disk, w.engines.setIfInBounds k t.engine⟩ := by
  rw [onEngine, engine?]
  cases w.engines[k]? with
  | none => exact ⟨fun h => (by cases h), fun ⟨_, _, h, _⟩ => (by cases h)⟩
  | some e =>
    constructor
    · intro h
      dsimp only at h
      split at h
      · rename_i t hx
        cases h
        exact ⟨e, t, rfl, hx, rfl⟩
      · cases h
    · rintro ⟨_, t, he, hx, rfl⟩
      cases he
      have hx : x.run ⟨w.disk, e⟩ = .ok a t := hx
      dsimp only
      rw [hx]

theorem ends_onEngine_none {α : Type} {x : EngineM α} (he : w.engine? k = none)
    {Q : α → Workspace → Prop} {E : EngineError → Workspace → Prop} :
    Ends (onEngine k x) w Q E ↔ E (.plan (.construction .foreignSession)) w := by
  rw [engine?] at he
  simp only [Ends, onEngine, he]
  rfl

/-- What one session does changes nothing for the others. -/
theorem Separate.turn (h : w.Separate) {e : Engine} (he : w.engine? k = some e) {t : Site}
    {evictee : Option NodeId} {x : Option Table} (ht : Site.Turn ⟨w.disk, e⟩ evictee x t)
    (hr : Site.Reached (fun _ => True) t) :
    Separate ⟨t.disk, w.engines.setIfInBounds k t.engine⟩ := by
  have hk : k < w.engines.size := (Array.getElem?_eq_some_iff.1 he).1
  have htag : t.engine.graph.tag = e.graph.tag := ht.extends.tag
  have old {j : SessionId} {e' : Engine}
      (hj : engine? ⟨t.disk, w.engines.setIfInBounds k t.engine⟩ j = some e') :
      j = k ∧ e' = t.engine ∨ j ≠ k ∧ w.engine? j = some e' := by
    rw [engine?] at hj
    by_cases hjk : j = k
    · subst hjk
      rw [Array.getElem?_setIfInBounds_self_of_lt hk, Option.some.injEq] at hj
      exact .inl ⟨rfl, hj.symm⟩
    · rw [Array.getElem?_setIfInBounds_ne (Ne.symm hjk)] at hj
      exact .inr ⟨hjk, hj⟩
  refine ⟨hr.atRest.files, fun {j e'} hj => ?_, fun {i j e₁ e₂} hi hj hij => ?_⟩
  · rcases old hj with ⟨rfl, rfl⟩ | ⟨hjk, hj⟩
    · exact hr
    · have hsite := h.site hj
      refine hsite.step (.elsewhere t.disk (hsite.atRest.elsewhere_of_keepsBut ht.disk ?_)) trivial
      rintro id ⟨i, hi⟩
      have := Graph.sameName_tag hi
      rw [h.tags hj he hjk] at this
      cases this
  · rcases old hi with ⟨rfl, rfl⟩ | ⟨hik, hi'⟩ <;> rcases old hj with ⟨rfl, rfl⟩ | ⟨hjk, hj'⟩
    · exact absurd rfl hij
    · rw [htag]
      exact h.tags he hj' hij
    · rw [htag]
      exact h.tags hi' he hij
    · exact h.tags hi' hj' hij

theorem Separate.operation (h : w.Separate) (o : Operation) :
    Ends (onEngine k o.run) w (fun _ => Separate) fun _ => Separate := by
  cases he : w.engine? k with
  | none => exact (ends_onEngine_none he).2 h
  | some e =>
    have hsite := h.site he
    rw [ends_onEngine he]
    refine ends_iff.2 ⟨fun a t ht => ?_, fun err t ht => ?_⟩
    · exact h.turn he ((o.run_ends hsite.atRest).of_ok ht) (hsite.step (.done o ht) trivial)
    · exact h.turn he ((o.run_ends hsite.atRest).of_error ht) (hsite.step (.failed o ht) trivial)

theorem Separate.session (h : w.Separate) {tag : String} {config : Config}
    (hfresh : ∀ {j e}, w.engine? j = some e → Sql.sameName e.graph.tag tag = false)
    (hs : addSession tag config w = .ok k w') : w'.Separate := by
  rw [addSession] at hs
  split at hs
  · cases hs
  · rename_i site hstart
    cases hs
    obtain ⟨hrest, hkeeps, hgraph, -⟩ := Engine.start_spec h.files hstart
    have old {j : SessionId} {e : Engine}
        (hj : engine? ⟨site.disk, w.engines.push site.engine⟩ j = some e) :
        j = w.engines.size ∧ e = site.engine ∨ j ≠ w.engines.size ∧ w.engine? j = some e := by
      rw [engine?, Array.getElem?_push] at hj
      split at hj
      · rename_i h
        exact .inl ⟨h, (Option.some.inj hj).symm⟩
      · rename_i h
        exact .inr ⟨h, hj⟩
    have htag : site.engine.graph.tag = tag := by
      rw [hgraph]
      rfl
    refine ⟨hrest.files, fun {j e} hj => ?_, fun {i j e₁ e₂} hi hj hij => ?_⟩
    · rcases old hj with ⟨rfl, rfl⟩ | ⟨-, hj⟩
      · exact .start h.files hstart trivial
      · have hsite := h.site hj
        refine hsite.step (.elsewhere _ (hsite.atRest.elsewhere_of_keepsBut
          (hkeeps.keepsBut hrest.files fun _ => False) fun _ h => h)) trivial
    · rcases old hi with ⟨rfl, rfl⟩ | ⟨hik, hi⟩ <;> rcases old hj with ⟨rfl, rfl⟩ | ⟨hjk, hj⟩
      · exact absurd rfl hij
      · rw [htag, Sql.sameName_comm]
        exact hfresh hj
      · rw [htag]
        exact hfresh hi
      · exact h.tags hi hj hij

theorem Reached.separate (h : w.Reached) : w.Separate := by
  induction h with
  | empty =>
    have none {k : SessionId} {e : Engine} (h : Workspace.empty.engine? k = some e) : False := by
      simp [Workspace.empty, engine?] at h
    exact ⟨Disk.valid_empty, fun h => (none h).elim, fun h => (none h).elim⟩
  | session _ hfresh hs ih => exact ih.session hfresh hs
  | done _ ho ih => exact (ih.operation _).of_ok ho
  | failed _ ho ih => exact (ih.operation _).of_error ho

/-! ## Operations of frames

Whatever sessions and frames are asked for is made of operations of engines. One lemma for each of them
says that it leads from a workspace that can be reached to one that can be reached. -/

/-- The operation, started in a workspace that can be reached, ends in one, whether it succeeds or fails. -/
def Stays {α : Type} (x : WorkspaceM α) : Prop :=
  ∀ ⦃w⦄, w.Reached → Ends x w (fun _ => Reached) fun _ => Reached

section Stays

variable {α β : Type}

/-- The workspace that an operation leaves, whether it succeeds or fails. -/
def left (x : WorkspaceM α) (w : Workspace) : Workspace :=
  match x w with
  | .ok _ w' | .error _ w' => w'

theorem reached_left {x : WorkspaceM α} (h : Ends x w (fun _ => Reached) fun _ => Reached) :
    (left x w).Reached := by
  rw [left]
  cases hx : x w with
  | ok a w' => exact h.of_ok hx
  | error e w' => exact h.of_error hx

theorem Stays.left {x : WorkspaceM α} (hx : Stays x) (hw : w.Reached) : (left x w).Reached :=
  reached_left (hx hw)

theorem stays_pure (a : α) : Stays (pure a) := fun _ hw => hw

theorem stays_throw (e : EngineError) : Stays (throw e : WorkspaceM α) := fun _ hw => hw

theorem Stays.bind {x : WorkspaceM α} {f : α → WorkspaceM β} (hx : Stays x) (hf : ∀ a, Stays (f a)) :
    Stays (x >>= f) :=
  fun _ hw => (hx hw).andThen (fun a _ hw => hf a hw) fun _ _ hw => hw

theorem stays_mapM {f : α → WorkspaceM β} (hf : ∀ a, Stays (f a)) (xs : List α) :
    Stays (xs.mapM f) := by
  induction xs with
  | nil => exact stays_pure []
  | cons x xs ih =>
    rw [List.mapM_cons]
    exact (hf x).bind fun _ => ih.bind fun _ => stays_pure _

theorem stays_step (x : Except EngineError α) : Stays (step x) := by
  cases x with
  | ok a => exact stays_pure a
  | error e => exact stays_throw e

theorem own_stays (k : SessionId) (f : Frame) : Stays (own k f) := by
  rw [own]
  split
  · exact stays_pure _
  · exact stays_throw _

/-- Nothing changes where a session's engine and disk stay what they are. -/
theorem setIfInBounds_engine? {e : Engine} (he : w.engine? k = some e) :
    (⟨w.disk, w.engines.setIfInBounds k e⟩ : Workspace) = w := by
  obtain ⟨hlt, rfl⟩ := Array.getElem?_eq_some_iff.1 he
  rw [Array.setIfInBounds_def, dif_pos hlt, Array.set_getElem_self]

/-- What does not change its engine does not change the workspace. -/
theorem stays_unchanged (k : SessionId) {x : EngineM α}
    (h : ∀ s, Ends x s (fun _ t => t = s) fun _ t => t = s) : Stays (onEngine k x) := by
  intro w hw
  cases he : w.engine? k with
  | none => exact (ends_onEngine_none he).2 hw
  | some e =>
    refine (ends_onEngine he).2 ((h _).mono ?_ ?_) <;>
    · rintro - t rfl
      rwa [setIfInBounds_engine? he]

theorem ask_stays (k : SessionId) (f : Engine → Except EngineError α) :
    Stays (onEngine k (Engine.ask f)) := by
  refine stays_unchanged k fun s => ?_
  rw [Engine.ask, ends_bind, ends_get]
  split <;> rfl

theorem onEngine_of_error {x : EngineM α} {e : Engine} (he : w.engine? k = some e) {err : EngineError}
    {t : Site} (hx : x ⟨w.disk, e⟩ = .error err t) :
    onEngine k x w = .error err ⟨t.disk, w.engines.setIfInBounds k t.engine⟩ := by
  rw [engine?] at he
  simp only [onEngine, he, EStateM.run, hx]

/-- What an engine is asked for is one of its operations, but for the answer. -/
theorem stays_onEngine (k : SessionId) (o : Operation) {x : EngineM α}
    (ho : o.run = do let _ ← x) : Stays (onEngine k x) := by
  intro w hw
  cases he : w.engine? k with
  | none => exact (ends_onEngine_none he).2 hw
  | some e =>
    rw [ends_onEngine he]
    refine ends_iff.2 ⟨fun a t ht => ?_, fun err t ht => ?_⟩
    · have hrun : o.run ⟨w.disk, e⟩ = .ok ⟨⟩ t := by rw [ho, run_bind_of_ok ht]; rfl
      exact .done hw (onEngine_eq_ok.2 ⟨e, t, he, hrun, rfl⟩)
    · have hrun : o.run ⟨w.disk, e⟩ = .error err t := by rw [ho, run_bind_of_error ht]
      exact .failed hw (onEngine_of_error he hrun)

end Stays
theorem build_stays (k : SessionId) (c : Construction) : Stays (build k fun g => c.call g) :=
  (stays_onEngine k (.build c) rfl).bind fun _ => stays_pure _

theorem ofTable_stays (k : SessionId) (t : Table) : Stays (ofTable k t) :=
  (stays_onEngine k (.addTable t) rfl).bind fun _ => stays_pure _

theorem ofRows_stays (k : SessionId) (names : List String) (rows : List (List Scalar)) :
    Stays (ofRows k names rows) :=
  (stays_step _).bind (ofTable_stays k)

theorem ofDocument_stays (k : SessionId) (t : Except StoreError Table) : Stays (ofDocument k t) :=
  (stays_step _).bind (ofTable_stays k)

theorem concat_stays (k : SessionId) (frames : List Frame) : Stays (concat k frames) :=
  (stays_mapM (own_stays k) frames).bind fun ids => build_stays k (.union ids)

theorem setStrategy_stays (k : SessionId) (strategy : Option Strategy) : Stays (setStrategy k strategy) :=
  stays_onEngine k (.setStrategy strategy) rfl

theorem setCostModel_stays (k : SessionId) (model : CostModel) : Stays (setCostModel k model) :=
  stays_onEngine k (.setCostModel model) rfl

theorem setDatabase_stays (k : SessionId) (path : DiskPath) (deleteOld : Bool) :
    Stays (setDatabase k path deleteOld) :=
  stays_onEngine k (.setDatabase path deleteOld) bind_pure_unit.symm

theorem close_stays (k : SessionId) (delete : Bool) : Stays (close k delete) :=
  stays_onEngine k (.close delete) rfl

theorem hasStorage_stays (k : SessionId) : Stays (hasStorage k) :=
  stays_unchanged k fun s => by
    rw [Engine.hasStorage, Engine.ends_onStore, Store.hasStorage, ends_bind, Store.ends_reading]
    split <;> rfl

end Workspace

namespace Frame

open Workspace

variable (f : Frame)

theorem details_stays : Stays f.details := ask_stays _ _

theorem columns_stays : Stays f.columns := f.details_stays.bind fun _ => stays_pure _

theorem dependents_stays : Stays f.dependents := ask_stays _ _

theorem statement_stays : Stays f.statement := ask_stays _ _

theorem isOutOfMemory_stays : Stays f.isOutOfMemory := ask_stays _ _

theorem operand_stays (v : Operand) : Stays (f.operand v) := by
  cases v with
  | frame other => exact own_stays _ other
  | value v => exact (build_stays _ (.constant v)).bind fun _ => stays_pure _

theorem filter_stays (criterion : Frame) : Stays (f.filter criterion) :=
  (own_stays _ _).bind fun c => build_stays _ (.selection f.node c)

theorem rename_stays (mapping : List (String × String)) : Stays (f.rename mapping) :=
  build_stays _ (.rename f.node mapping)

theorem sortBy_stays (columns : List String) (ascending : Bool) : Stays (f.sortBy columns ascending) :=
  build_stays _ (.orderBy f.node _)

theorem dropDuplicates_stays : Stays f.dropDuplicates :=
  f.columns_stays.bind fun columns => build_stays _ (.projection f.node columns true)

theorem assign_stays (column : String) (value : Operand) : Stays (f.assign column value) :=
  (f.operand_stays value).bind fun v => build_stays _ (.assign f.node column v)

theorem describe_stays : Stays f.describe := build_stays _ (.describe f.node)

theorem compare_stays (op : CompareOp) (right : Operand) : Stays (f.compare op right) :=
  (f.operand_stays right).bind fun r => build_stays _ (.compare op f.node r)

theorem like_stays (pattern : String) : Stays (f.like pattern) := build_stays _ (.like f.node pattern)

theorem isNull_stays : Stays f.isNull := build_stays _ (.isNull f.node)

theorem connect_stays (op : Connective) (other : Frame) : Stays (f.connect op other) :=
  (own_stays _ _).bind fun r => build_stays _ (.logical op f.node (some r))

theorem not_stays : Stays f.not := build_stays _ (.logical .not f.node none)

theorem arith_stays (op : ArithOp) (right : Operand) : Stays (f.arith op right) :=
  (f.operand_stays right).bind fun r => build_stays _ (.arith op f.node r)

theorem unary_stays (op : UnaryOp) : Stays (f.unary op) := build_stays _ (.unary op f.node)

theorem joinOn_stays (other : Frame) (leftOn rightOn : List String) (how : JoinType) :
    Stays (f.joinOn other leftOn rightOn how) :=
  (own_stays _ _).bind fun r => build_stays _ (.join f.node r leftOn rightOn how)

theorem merge_stays (other : Frame) (on : List String) (how : JoinType) : Stays (f.merge other on how) :=
  f.joinOn_stays other on on how

theorem union_stays (others : List Frame) : Stays (f.union others) :=
  (stays_mapM (own_stays _) others).bind fun ids => build_stays _ (.union (f.node :: ids))

theorem aggregate_stays (func : AggFunc) : Stays (f.aggregate func) :=
  build_stays _ (.aggregate f.node func)

theorem groupBy_stays (keys : List String) : Stays (f.groupBy keys) :=
  (build_stays _ (.groupBy f.node keys)).bind fun _ => stays_pure _

theorem compute_stays : Stays f.compute := stays_onEngine _ (.compute f.node) rfl

theorem toTable_stays : Stays f.toTable :=
  f.compute_stays.bind fun _ => f.columns_stays.bind fun _ => stays_step _

end Frame

namespace Grouping

open Workspace

variable (g : Grouping)

theorem aggregate_stays (func : AggFunc) : Stays (g.aggregate func) := g.frame.aggregate_stays func

end Grouping

namespace Workspace

variable {w : Workspace}

theorem merge_stays (k : SessionId) (left right : Frame) (on : List String) (how : JoinType) :
    Stays (merge k left right on how) :=
  (own_stays k left).bind fun _ => left.merge_stays right on how

/-! ## Computations -/

/-- A workspace with one session. -/
def single (strategy : Strategy) : Workspace :=
  left (addSession "a" (Config.standard.withStrategy strategy)) .empty

end Workspace
end LazyQuery
