import LazyQuery.Proofs.Engine.Denotation
import LazyQuery.Proofs.Engine.Run
import Mathlib.Logic.Function.Basic

/-!
# What results mean

An engine that never uses the store computes just what nodes denote, by plain recursion over the graph.
What carries the proof is `Site.Faithful`: whatever is cached is what it denotes. An evaluation keeps it,
as it reads what is cached; a larger graph keeps it, as the recursion only goes down; and what is given up
is evaluated again.
-/

set_option autoImplicit false

namespace LazyQuery

namespace Site

/-! ## Engines that never use the store -/

/-- Nothing is to be computed in the store. -/
def Never (s : Site) : Prop := s.engine.config.strategy = some .never

instance : DecidablePred Never := fun _ => inferInstanceAs (Decidable (_ = _))

/-- Nothing but base tables is in the store, and whatever is cached is what it denotes. -/
structure Faithful (s : Site) (base : BaseTables) : Prop where
  never : s.Never
  fits : ∀ i, s.engine.view.outOfMemory i = false
  stored : ∀ {i}, s.engine.view.relational i = true →
    s.engine.view.inMemory i = true ∧ s.engine.graph.Has (·.isSource) i
  based : ∀ {i t}, base i = some t → s.engine.graph.Has (·.isSource) i
  value : ∀ {i st c}, s.known? i = some st → st.cached = some c →
    s.engine.graph.denote base i = .ok c.value

variable {s t : Site} {base base' : BaseTables} {id : NodeId}

theorem Faithful.not_mayUseStore (h : s.Faithful base) : ¬s.MayUseStore := by
  rintro (hu | ⟨i, hi⟩)
  · exact hu h.never
  · simp [h.fits i] at hi

/-- What is fetched from memory is what it denotes. -/
theorem Faithful.cachedValue (h : s.Faithful base) (d : NodeId) :
    Refines (s.engine.cachedValue d) (s.engine.graph.denote base d) := by
  intro v hv
  obtain ⟨st, c, hst, hc, rfl⟩ := cached_of_cachedValue hv
  exact h.value hst hc

/-- A node without base table is evaluated. -/
theorem Faithful.base_eq_none (h : s.Faithful base) {fetch : Fetch} {v : Result}
    (hv : s.engine.graph.evaluate fetch id = .ok v) : base id = none := by
  cases hb : base id with
  | none => rfl
  | some t =>
    obtain ⟨n, hn, hsource⟩ := h.based hb
    rw [Graph.evaluate, Graph.node_eq_ok.2 hn] at hv
    obtain ⟨i, name, op, schema⟩ := n
    cases op <;> cases hsource
    cases hv

/-- What changes a site without caching or storing anything keeps it faithful. -/
theorem Faithful.modify (h : s.Faithful base) {f : NodeState → NodeState}
    (hc : ∀ st, (f st).cached = st.cached) (hr : ∀ st, (f st).relational = st.relational)
    (ho : ∀ st, (f st).outOfMemory = st.outOfMemory) : (s.modify id f).Faithful base where
  never := h.never
  fits i := (outOfMemory_modify ho).trans (h.fits i)
  stored {i} hi := by
    rw [relational_modify hr] at hi
    rw [inMemory_modify hc]
    exact h.stored hi
  based := h.based
  value {i st c} hst hcached := by
    rw [known?_modify] at hst
    split at hst
    · obtain ⟨st₀, hst₀, rfl⟩ := Option.map_eq_some_iff.1 hst
      exact h.value hst₀ ((hc st₀).symm.trans hcached)
    · exact h.value hst hcached

theorem Faithful.withMounted (h : s.Faithful base) {m : Mounted}
    (hg : m.store.generation = s.engine.store.generation) : (s.withMounted m).Faithful base where
  never := h.never
  fits := h.fits
  stored {i} hi := h.stored ((Site.relational_withMounted hg i).symm.trans hi)
  based := h.based
  value := h.value

theorem Faithful.withBudget (h : s.Faithful base) (b : Budget) : (s.withBudget b).Faithful base :=
  ⟨h.never, h.fits, h.stored, h.based, h.value⟩

/-- A value that is denoted can be cached. -/
theorem Faithful.keep (h : s.Faithful base) {rows : UInt64} {value : Result} {g : Guard}
    (hv : s.engine.graph.denote base id = .ok value) :
    (s.modify id (.keeping rows value g)).Faithful base where
  never := h.never
  fits i := (outOfMemory_modify (f := .keeping rows value g) fun _ => rfl).trans (h.fits i)
  stored {i} hi := by
    rw [relational_modify (f := .keeping rows value g) fun _ => rfl] at hi
    refine ⟨?_, (h.stored hi).2⟩
    have hi := (h.stored hi).1
    rw [inMemory_eq, known?_modify]
    split
    · obtain ⟨st, c, hst, -⟩ := known?_of_inMemory hi
      rename_i h
      subst h
      rw [hst]
      rfl
    · exact hi
  based := h.based
  value {i st c} hst hc := by
    rw [known?_modify] at hst
    split at hst
    · rename_i h
      subst h
      obtain ⟨st₀, -, rfl⟩ := Option.map_eq_some_iff.1 hst
      cases hc
      exact hv
    · exact h.value hst hc

/-- **Moves keep what is cached faithful.** None of them uses the store. -/
theorem Faithful.move (h : s.Faithful base) (hs : s.Sound) (hm : Move s id t) :
    t.Faithful base := by
  have absent (hi : s.engine.view.inMemory id = false) (hr : s.engine.view.relational id = true) :
      False := by
    rw [(h.stored hr).1] at hi
    cases hi
  cases hm with
  | flag b => exact h.modify (fun _ => rfl) (fun _ => rfl) fun _ => rfl
  | evaluated value _ hi hv =>
    obtain ⟨n, hn, -⟩ := bind_eq_ok.1 hv
    have hn := Graph.node_eq_ok.1 (mapError_eq_ok.1 hn)
    refine (h.withBudget _).keep (Graph.denote_of_evaluate hs.graph (h.base_eq_none hv) hn ?_ hv)
    exact fun d _ _ => h.cachedValue d
  | foundTooLarge _ _ hi hr => exact (absent hi hr).elim
  | readFailed => exact h.withBudget _
  | readBack _ _ _ _ _ _ hi hr => exact (absent hi hr).elim
  | loaded _ _ hu => exact (h.not_mayUseStore hu).elim
  | created _ _ hu => exact (h.not_mayUseStore hu).elim
  | storeFailed m hw => exact h.withMounted hw.generation

theorem Faithful.moves (h : s.Faithful base) (hs : s.Sound) {bound : NodeId}
    (hm : Moves bound s t) : t.Faithful base := by
  induction hm with
  | refl => exact h
  | @tail t u hm hmove ih =>
    obtain ⟨i, -, hmove⟩ := hmove
    have hm : Moves bound s t := hm
    exact ih.move (hm.sound hs) hmove

/-! ## Operations -/

/-- The base tables once a step has added one, or none. -/
def record (s : Site) (base : BaseTables) : Option Table → BaseTables
  | some t => Function.update base s.engine.graph.size (some t)
  | none => base

/-- What denotes something goes on denoting it when a node is added, with a base table or not. -/
theorem Sound.denote_grown (hs : s.Sound) {g : Graph}
    (hg : s.engine.graph.Extends g) {x : Option Table} {i : NodeId}
    (hi : i < s.engine.graph.size) :
    Refines (s.engine.graph.denote base i) (g.denote (s.record base x) i) := by
  refine Graph.denote_mono hs.graph (hg.agreesTo i) fun j hj => ?_
  cases x with
  | none => rfl
  | some t => exact Function.update_of_ne (Nat.ne_of_lt (Nat.lt_of_le_of_lt hj hi)) _ _

theorem Faithful.grown (h : s.Faithful base) (hs : s.Sound) {g : Graph}
    (hg : s.engine.graph.Adds (s.engine.graph.size, g)) : (s.grown g).Faithful base where
  never := h.never
  fits i := (any_known?_grown rfl).trans (h.fits i)
  stored {i} hi := by
    rw [relational_eq, any_known?_grown rfl] at hi
    rw [inMemory_eq, any_known?_grown rfl]
    exact ⟨(h.stored hi).1, hg.extends.has (h.stored hi).2⟩
  based hb := hg.extends.has (h.based hb)
  value {i st c} hst hc := by
    rcases known?_grown hst with hst | rfl
    · have hi : i < s.engine.graph.size := by
        rw [← hs.size]
        exact (Array.getElem?_eq_some_iff.1 hst).1
      exact hs.denote_grown hg.extends (x := none) hi _ (h.value hst hc)
    · cases hc

/-- A base table denotes itself. -/
theorem Faithful.supplied (h : s.Faithful base) (hs : s.AtRest) {x : Table} {g : Graph}
    (hg : s.engine.graph.addSource x.inferSchema = .ok (s.engine.graph.size, g)) {m : Mounted}
    (hw : s.mounted.Writes (s.engine.graph.tableName s.engine.graph.size) m) :
    (s.supplied g m x).Faithful (s.record base (some x)) := by
  have hadds : s.engine.graph.Adds (s.engine.graph.size, g) := Graph.addSource_adds hg
  have hgrown := h.grown hs.sound hadds
  have hgen : m.store.generation = s.engine.store.generation := hw.generation
  have hsource : g.Has (·.isSource) s.engine.graph.size := by
    obtain rfl := Graph.eq_push_of_addSource hg
    exact ⟨_, Graph.node?_push.2 (.inr ⟨rfl, rfl⟩), rfl⟩
  have known {i : NodeId} {st : NodeState} (hst : (s.supplied g m x).known? i = some st) :
      i = s.engine.graph.size ∧ st.cached.map Cached.value = some x.asBase ∧
          st.outOfMemory = false ∨
        i ≠ s.engine.graph.size ∧ (s.grown g).known? i = some st :=
    (known?_supplied hs.sound hg hst).imp_left fun ⟨hi, h⟩ => ⟨hi, by rw [h]; exact ⟨rfl, rfl⟩⟩
  refine ⟨h.never, fun i => ?_, fun {i} hi => ?_, fun {i t} hb => ?_, fun {i st c} hst hc => ?_⟩
  · rw [outOfMemory_eq]
    cases hst : (s.supplied g m x).known? i with
    | none => rfl
    | some st =>
      rcases known hst with ⟨-, -, ho⟩ | ⟨-, hst'⟩
      · exact ho
      · have := hgrown.fits i
        rwa [outOfMemory_eq, hst'] at this
  · rw [relational_eq, Option.any_eq_true] at hi
    obtain ⟨st, hst, hr⟩ := hi
    rw [inMemory_eq, hst]
    rcases known hst with ⟨rfl, hv, -⟩ | ⟨-, hst'⟩
    · obtain ⟨c, hc, -⟩ := Option.map_eq_some_iff.1 hv
      exact ⟨by rw [Option.any_some, hc]; rfl, hsource⟩
    · have hr' : (s.grown g).engine.view.relational i = true := by
        rw [relational_eq, hst', Option.any_some]
        exact hgen ▸ hr
      have := hgrown.stored hr'
      rw [inMemory_eq, hst'] at this
      exact this
  · by_cases hi : i = s.engine.graph.size
    · exact hi ▸ hsource
    · rw [record, Function.update_of_ne hi] at hb
      exact hadds.extends.has (h.based hb)
  · rcases known hst with ⟨rfl, hv, -⟩ | ⟨hi, hst'⟩
    · rw [hc, Option.map_some, Option.some.injEq] at hv
      rw [hv]
      exact Graph.denote_base (Function.update_self _ _ _)
    · rcases known?_grown hst' with hst₀ | rfl
      · have hlt : i < s.engine.graph.size := by
          rw [← hs.sound.size]
          exact (Array.getElem?_eq_some_iff.1 hst₀).1
        exact hs.sound.denote_grown hadds.extends hlt _ (h.value hst₀ hc)
      · cases hc

/-- **Operations keep what is cached faithful**, as long as the strategy stays. -/
theorem Faithful.turn (h : s.Faithful base) (hs : s.AtRest) {e : Option NodeId}
    {x : Option Table} (ht : s.Turn e x t) (hn : t.Never) : t.Faithful (s.record base x) := by
  cases ht with
  | computed hp => exact h.moves hs.sound hp.moves
  | built g hg hp => exact (h.grown hs.sound hg).moves (hs.grown hg).sound hp.moves
  | supplied x g hg m y hw => exact h.supplied hs hg hw
  | @evicted id n st c _ hnode hsource hst hc =>
    have hr : ∀ i, ((s.withBudget (s.engine.budget.release c.guard)).modify id fun st =>
        { st with cached := none }).engine.view.relational i = s.engine.view.relational i :=
      fun i => relational_modify (f := fun st => { st with cached := none }) fun _ => rfl
    refine ⟨h.never, fun i => ?_, fun {i} hi => ?_, h.based, fun {i st c} hst hc => ?_⟩
    · refine (outOfMemory_modify (f := fun st => { st with cached := none }) fun _ => rfl).trans ?_
      exact h.fits i
    · rw [hr] at hi
      obtain ⟨hm, m, hm', hs'⟩ := h.stored hi
      refine ⟨?_, m, hm', hs'⟩
      have hne : id ≠ i := by
        rintro rfl
        rw [hnode, Option.some.injEq] at hm'
        subst hm'
        simp [hsource] at hs'
      rw [inMemory_eq, known?_modify_ne hne]
      exact hm
    · rw [known?_modify] at hst
      split at hst
      · obtain ⟨st₀, -, rfl⟩ := Option.map_eq_some_iff.1 hst
        cases hc
      · exact h.value hst hc
  | configured => exact ⟨hn, h.fits, h.stored, h.based, h.value⟩
  | remounted m hd hv hk hg =>
    refine ⟨h.never, h.fits, fun {i} hi => ?_, h.based, h.value⟩
    -- No table counts at the new generation.
    rw [relational_eq, Option.any_eq_true] at hi
    obtain ⟨st, hst, hr⟩ := hi
    rw [beq_iff_eq, show (s.withMounted m).engine.store.generation = _ from hg] at hr
    exact absurd (hs.sound.marker_le hst hr) (Nat.not_succ_le_self _)

end Site

/-! ## Runs -/

/-- A run leads from one site to another, through sites for which `P` holds, and adds base tables. -/
inductive Site.Run (P : Site → Prop) (s : Site) (base : BaseTables) : Site → BaseTables → Prop
  | refl : Run P s base s base
  | step {t u : Site} {base' : BaseTables} {x : Option Table} (h : Run P s base t base')
      (ht : t.Step x u) (hu : P u) : Run P s base u (t.record base' x)

/-- The base tables once operations have been performed one after the other. -/
def Site.basesAfter (s : Site) (base : BaseTables) : List Operation → BaseTables
  | [] => base
  | o :: rest =>
    match o.run s with
    | .ok _ t => t.basesAfter (s.record base o.adds) rest
    | .error _ t => t.basesAfter base rest

namespace Site.Run

variable {P : Site → Prop} {s t : Site} {base base' : BaseTables}

theorem atRest (h : Run P s base t base') (hs : s.AtRest) : t.AtRest := by
  induction h with
  | refl => exact hs
  | step _ ht _ ih => exact ht.atRest ih

theorem last (h : Run P s base t base') (hs : P s) : P t := by
  cases h with
  | refl => exact hs
  | step _ _ hu => exact hu

/-- Operations can be performed at the end of a run. -/
theorem after (h : Run P s base t base') {os : List Operation} (hP : t.Passes P os) :
    Run P s base (t.after os) (t.basesAfter base' os) := by
  induction os generalizing t base' with
  | nil => exact h
  | cons o rest ih =>
    rw [Passes] at hP
    rw [Site.after, basesAfter]
    cases ho : o.run t with
    | ok a u =>
      rw [ho] at hP
      exact ih (h.step (.done o ho) hP.1) hP.2
    | error e u =>
      rw [ho] at hP
      exact ih (h.step (.failed o ho) hP.1) hP.2

/-- A run takes turns, or others change the disk. -/
theorem rec_turn {motive : Site → BaseTables → Prop} (h : Run P s base t base') (hs : s.AtRest)
    (refl : motive s base)
    (turn : ∀ {u v e x base}, u.AtRest → u.Turn e x v → P v → motive u base →
      motive v (u.record base x))
    (elsewhere : ∀ {u d base}, u.Elsewhere d → motive u base → motive { u with disk := d } base) :
    motive t base' := by
  induction h with
  | refl => exact refl
  | step h ht hu ih =>
    have hr := h.atRest hs
    cases ht with
    | done o ho => exact turn hr ((o.run_ends hr).of_ok ho) hu ih
    | failed o ho => exact turn hr ((o.run_ends hr).of_error ho) hu ih
    | elsewhere d hd => exact elsewhere hd ih

theorem faithful (h : Run Never s base t base') (hs : s.AtRest) (hf : s.Faithful base) :
    t.Faithful base' :=
  h.rec_turn (motive := Faithful) hs hf (fun hu ht hn hf => hf.turn hu ht hn)
    fun _ hf => ⟨hf.never, hf.fits, hf.stored, hf.based, hf.value⟩

/-- A run keeps the nodes and base tables that are there. -/
theorem grows (h : Run P s base t base') (hs : s.AtRest) :
    s.engine.graph.Extends t.engine.graph ∧
      ∀ i, i < s.engine.graph.size → base' i = base i := by
  induction h with
  | refl => exact ⟨.refl _, fun _ _ => rfl⟩
  | @step t u base' x h ht hu ih =>
    have hr := h.atRest hs
    have hext : t.engine.graph.Extends u.engine.graph := by
      cases ht with
      | done o ho => exact ((o.run_ends hr).of_ok ho).extends
      | failed o ho => exact ((o.run_ends hr).of_error ho).extends
      | elsewhere => exact .refl _
    refine ⟨ih.1.trans hext, fun i hi => ?_⟩
    cases x with
    | none => exact ih.2 i hi
    | some x =>
      rw [record, Function.update_of_ne (Nat.ne_of_lt (Nat.lt_of_lt_of_le hi ih.1.size_le))]
      exact ih.2 i hi

end Site.Run

namespace Engine

open Site

theorem start_faithful {disk : Disk} {tag : String} {config : Config} {s : Site}
    (hd : disk.Valid) (h : start disk tag config = .ok s) (hn : s.Never) :
    s.Faithful fun _ => none := by
  obtain ⟨-, -, -, hstates, -, -⟩ := start_spec hd h
  have hknown : ∀ i, s.known? i = none := fun i => by
    rw [known?, hstates]
    rfl
  refine ⟨hn, fun i => ?_, fun {i} hi => ?_, fun hb => (by cases hb), fun {i st c} hst => ?_⟩
  · rw [outOfMemory_eq, hknown]
    rfl
  · rw [relational_eq, hknown] at hi
    cases hi
  · rw [hknown] at hst
    cases hst

/-- What is computed without the store is what the node denotes. -/
theorem compute_of_faithful {s t : Site} {base : BaseTables} (hs : s.AtRest) (h : s.Faithful base)
    {id : NodeId} {v : Result} (hv : compute id s = .ok v t) : s.engine.graph.denote base id = .ok v := by
  obtain ⟨hp, st, c, hst, hcached, rfl⟩ := compute_eq_ok hs hv
  have hden := (h.moves hs.sound hp.moves).value hst hcached
  rwa [hp.keeps.graph] at hden

/-- **What is computed without the store is what plain recursion yields.** Whenever a node is computed
in a run, whatever has been computed, evicted or added before, its result is the one it denotes over
the graph and the base tables as they were at any time when the node was there. -/
theorem compute_eq_denote {disk : Disk} {tag : String} {config : Config} {s₀ s t u : Site}
    {base base' : BaseTables} (hd : disk.Valid) (hstart : start disk tag config = .ok s₀)
    (hn : s₀.Never) (hs : Site.Run Never s₀ (fun _ => none) s base) (ht : Site.Run Never s base t base')
    {id : NodeId} (hid : id < s.engine.graph.size) {v : Result} (hv : compute id t = .ok v u) :
    s.engine.graph.denote base id = .ok v := by
  have hrest := hs.atRest (start_spec hd hstart).1
  have hfaithful := ht.faithful hrest
    (hs.faithful (start_spec hd hstart).1 (start_faithful hd hstart hn))
  have htrest := ht.atRest hrest
  obtain ⟨hext, hbase⟩ := ht.grows hrest
  refine Graph.denote_mono htrest.sound.graph (hext.agreesTo_of_lt hid) (fun i hi => ?_) _
    (compute_of_faithful htrest hfaithful hv)
  exact (hbase i (Nat.lt_of_le_of_lt hi hid)).symm

/-- A column is computed and given up. Then one is asked for that is not there, another table is added, and
the column is computed again: it is what it was before. -/
theorem compute_eq_denote_column : ∃ (s t u : Site) (v : Result) (base base' : BaseTables),
    Site.Run Never s base t base' ∧ compute 1 t = .ok v u ∧
      v = .table ⟨[⟨"k", [.int 1]⟩]⟩ ∧ s.engine.graph.denote base 1 = .ok v := by
  let first : List Operation := [.addTable ⟨[⟨"k", [.int 1]⟩, ⟨"v", [.null]⟩]⟩,
    .build (.projection 0 ["k"] false), .compute 1]
  let later : List Operation := [.evict 1, .build (.projection 0 ["w"] false),
    .addTable ⟨[⟨"k", [.int 2]⟩]⟩]
  obtain ⟨s₀, hstart, hn, hfirst, hlater, hsize, u, hv⟩ : ∃ s₀,
      start .empty "a" (Config.standard.withStrategy .never) = .ok s₀ ∧ s₀.Never ∧
        s₀.Passes Never first ∧ (s₀.after first).Passes Never later ∧
        1 < (s₀.after first).engine.graph.size ∧
        ∃ u, compute 1 ((s₀.after first).after later) = .ok (.table ⟨[⟨"k", [.int 1]⟩]⟩) u :=
    ⟨_, rfl, rfl, by decide +kernel, by decide +kernel, by decide +kernel, by decide +kernel⟩
  have hs : Site.Run Never s₀ (fun _ => none) (s₀.after first) _ := .after .refl hfirst
  have ht : Site.Run Never (s₀.after first) (s₀.basesAfter (fun _ => none) first)
    ((s₀.after first).after later) _ := .after .refl hlater
  exact ⟨_, _, u, _, _, _, ht, hv, rfl, compute_eq_denote Disk.valid_empty hstart hn hs ht hsize hv⟩

end Engine
end LazyQuery
