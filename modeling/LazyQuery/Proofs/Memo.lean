import LazyQuery.Proofs.Engine.States
import LazyQuery.Proofs.Session

/-!
# Results are computed once

What a computation has yielded stays in memory until it is evicted, whatever else is done in any of the
sessions (`Workspace.Spares`). A computation of what is in memory does nothing: it reads nothing,
creates nothing and takes no memory (`Engine.compute_of_holds`). Together they give
`Workspace.compute_again`.
-/

set_option autoImplicit false

namespace LazyQuery

namespace Workspace

variable {w w₁ w₂ : Workspace} {f : Frame} {v : Result}

/-- The result of the frame is in memory. -/
def Holds (w : Workspace) (f : Frame) (v : Result) : Prop :=
  ∃ e, w.engine? f.session = some e ∧ Site.Holds ⟨w.disk, e⟩ f.node v

/-- A sequence of operations of sessions leads from one workspace to the other, and the frame's result
is not evicted. -/
inductive Spares (f : Frame) (w : Workspace) : Workspace → Prop
  | refl : Spares f w w
  | session {w₁ w₂ : Workspace} {tag : String} {config : Config} {k : SessionId}
      (h : Spares f w w₁)
      (hfresh : ∀ {j e}, w₁.engine? j = some e → Sql.sameName e.graph.tag tag = false)
      (hs : addSession tag config w₁ = .ok k w₂) : Spares f w w₂
  | done {w₁ w₂ : Workspace} {k : SessionId} {o : Operation} (h : Spares f w w₁)
      (hne : ¬(k = f.session ∧ o.evicts = some f.node))
      (ho : onEngine k o.run w₁ = .ok ⟨⟩ w₂) : Spares f w w₂
  | failed {w₁ w₂ : Workspace} {k : SessionId} {o : Operation} {e : EngineError}
      (h : Spares f w w₁) (ho : onEngine k o.run w₁ = .error e w₂) : Spares f w w₂

theorem Spares.reached (h : Spares f w w₁) (hw : w.Reached) : w₁.Reached := by
  induction h with
  | refl => exact hw
  | session _ hfresh hs ih => exact .session ih hfresh hs
  | done _ _ ho ih => exact .done ih ho
  | failed _ ho ih => exact .failed ih ho

/-- An operation can be performed, whether it succeeds or fails. -/
theorem Spares.perform (h : Spares f w w₁) (k : SessionId) (o : Operation)
    (hne : ¬(k = f.session ∧ o.evicts = some f.node)) : Spares f w (left (onEngine k o.run) w₁) := by
  rw [left]
  cases ho : onEngine k o.run w₁ with
  | ok _ _ => exact .done h hne ho
  | error _ _ => exact .failed h ho

/-- The frame's result stays when the engine of a session has taken a turn. -/
theorem Holds.turn (hv : w.Holds f v) (hw : w.Separate) {k : SessionId} {e : Engine}
    (he : w.engine? k = some e) {evictee : Option NodeId} {x : Option Table} {t : Site}
    (ht : Site.Turn ⟨w.disk, e⟩ evictee x t) (hne : ¬(k = f.session ∧ evictee = some f.node)) :
    Holds ⟨t.disk, w.engines.setIfInBounds k t.engine⟩ f v := by
  obtain ⟨e', he', hv⟩ := hv
  by_cases hk : k = f.session
  · subst hk
    rw [he, Option.some.injEq] at he'
    subst he'
    have hlt : f.session < w.engines.size := (Array.getElem?_eq_some_iff.1 he).1
    exact ⟨t.engine, Array.getElem?_setIfInBounds_self_of_lt hlt,
      hv.turn (hw.site he).atRest ht fun h => hne ⟨rfl, h.1⟩⟩
  · exact ⟨e', (Array.getElem?_setIfInBounds_ne hk).trans he', hv⟩

/-- The frame's result stays whatever a session is asked for, unless it is evicted. -/
theorem Holds.operation (hv : w.Holds f v) (hw : w.Separate) (k : SessionId) (o : Operation) :
    Ends (onEngine k o.run) w
      (fun _ w' => ¬(k = f.session ∧ o.evicts = some f.node) → w'.Holds f v)
      fun _ w' => w'.Holds f v := by
  cases he : w.engine? k with
  | none => exact (ends_onEngine_none he).2 hv
  | some e =>
    rw [ends_onEngine he]
    exact (o.run_ends (hw.site he).atRest).mono (fun _ t ht hne => hv.turn hw he ht hne)
      fun _ t ht => hv.turn hw he ht fun h => nomatch h.2

theorem Spares.holds (h : Spares f w w₁) (hw : w.Reached) (hv : w.Holds f v) : w₁.Holds f v := by
  induction h with
  | refl => exact hv
  | @session w₁ w₂ tag config k h hfresh hs ih =>
    rw [addSession] at hs
    split at hs
    · cases hs
    · cases hs
      obtain ⟨e, he, hv⟩ := ih
      have hlt : f.session < w₁.engines.size := (Array.getElem?_eq_some_iff.1 he).1
      refine ⟨e, ?_, hv⟩
      rw [engine?, Array.getElem?_push_lt hlt, ← Array.getElem?_eq_getElem hlt]
      exact he
  | done h hne ho ih => exact (ih.operation (h.reached hw).separate _ _).of_ok ho hne
  | failed h ho ih => exact (ih.operation (h.reached hw).separate _ _).of_error ho

end Workspace
end LazyQuery
