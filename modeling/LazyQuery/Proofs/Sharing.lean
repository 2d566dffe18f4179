import LazyQuery.Proofs.Engine.Following
import LazyQuery.Proofs.Session
import LazyQuery.Proofs.Store.Locality

/-!
# Sessions at work on one file

Sessions that share a database file are at work at the same time. Each goes through its requests, and what
it does between two of its statements is its own; but statements of all sessions come to the disk in any
order. `Sharing` is such a state of affairs, and a list of session numbers says whose turn it is next, and
next after that.

* A `Session` that has its turn begins a request, sends a statement, or ends the request. What it has seen
  by then are its `Observation`s: the answers, and after each the engine with its counters and its budget.
* `Session.Tracks` says that a session has seen, and will see, what it sees on a disk of its own, which is
  like the shared one in the tables of the session. Turns of the session keep this, since its statements
  name those tables only; turns of others keep it, since theirs name none of them.
* A session that has its turns without a break carries out a request as `Workspace.onEngine` does
  (`Sharing.exists_after_request`).
* `Sharing.seen_as_alone` is the main result: **sessions on one file do not interfere**.
-/

set_option autoImplicit false

namespace LazyQuery

open Sql

/-! ## Names of tables -/

namespace Graph

variable {tag tag' : String}

theorem IsTableName.isPlain {name : String} (h : IsTableName tag name) : Database.IsPlain name := by
  obtain ⟨i, rfl⟩ := h
  exact ⟨isListingName_tableName _ i, isBuiltIn_tableName _ i⟩

/-- No table of a graph with one tag has the name of one with the other. -/
def Apart (tag tag' : String) : Prop :=
  ∀ i j, sameName ((empty tag).tableName i) ((empty tag').tableName j) = false

theorem Apart.symm (h : Apart tag tag') : Apart tag' tag :=
  fun i j => (sameName_comm _ _).trans (h j i)

/-- Different tags are apart if names are told apart exactly: the tag can be read off a name. -/
theorem apart_of_ne (htag : tag ≠ tag')
    (hexact : ∀ i j, sameName ((empty tag).tableName i) ((empty tag').tableName j) = true →
      (empty tag).tableName i = (empty tag').tableName j) : Apart tag tag' :=
  fun i j => Bool.eq_false_iff.2 fun h => htag (tag_eq_of_tableName_eq (hexact i j h))

end Graph

/-! ## What a session sees -/

/-- What is seen of a session when a request has ended. The engine has the counters of its store and the
budget in it. -/
structure Observation where
  answer : Except EngineError Reply
  engine : Engine

/-- What is seen when an engine goes through requests alone. -/
def Site.observations : Site → List Request → List Observation
  | _, [] => []
  | s, r :: rest =>
    let (answer, t) := outcome (r.answer s)
    ⟨answer, t.engine⟩ :: t.observations rest

/-- A session at work. -/
structure Session where
  /-- The engine, as the last request has left it. -/
  engine : Engine
  todo : List Request
  /-- What the request under way has yet to do. -/
  course : Option (Course Reply)
  seen : List Observation

namespace Session

/-- A session with all its requests before it. -/
def new (engine : Engine) (todo : List Request) : Session := ⟨engine, todo, none, []⟩

/-- The session once it has had a turn, and the disk: it has sent a statement, ended a request or begun
one. -/
def act (p : Session) (d : Disk) : Session × Disk :=
  match p.course, p.todo with
  | some (.sends q e next), _ =>
    let (answer, d) := q.send e.store d
    ({ p with course := some (next answer) }, d)
  | some (.ended answer e), _ =>
    ({ p with engine := e, course := none, seen := p.seen ++ [⟨answer, e⟩] }, d)
  | none, r :: rest => ({ p with todo := rest, course := some (r.script p.engine) }, d)
  | none, [] => (p, d)

/-- Has the session nothing more to do? -/
def IsDone (p : Session) : Prop := p.todo = [] ∧ p.course = none

/-- What the session has seen are the first of some observations, and all of them if it is done. -/
def Shows (p : Session) (os : List Observation) : Prop := p.seen <+: os ∧ (p.IsDone → p.seen = os)

/-- What the session will see on a disk that nobody else uses. -/
def ahead (p : Session) (d : Disk) : List Observation :=
  match p.course with
  | none => Site.observations ⟨d, p.engine⟩ p.todo
  | some c => ⟨(c.on d).1, (c.on d).2.engine⟩ :: (c.on d).2.observations p.todo

/-- The session names tables of one tag only. -/
def Within (tag : String) (p : Session) : Prop :=
  match p.course with
  | none => p.engine.Bears tag
  | some c => c.Within tag

/-- On some disk that is like the shared one in the session's tables, all that the session has seen and
will see are these observations. -/
def Tracks (tag : String) (os : List Observation) (d : Disk) (p : Session) : Prop :=
  p.Within tag ∧ ∃ d', d.Alike (Graph.IsTableName tag) d' ∧ p.seen ++ p.ahead d' = os

variable {p : Session} {tag tag' : String} {os : List Observation} {d d' : Disk}

/-! ## Turns of a session -/

theorem Within.act (h : p.Within tag) (d : Disk) : (p.act d).1.Within tag := by
  obtain ⟨engine, todo, course, seen⟩ := p
  match course, todo with
  | some (.sends q e next), _ => exact h.2 _
  | some (.ended answer e), _ => exact h
  | none, r :: rest => exact (r.follows tag).within engine h
  | none, [] => exact h

/-- A turn on a disk of its own changes nothing in what a session sees in all. -/
theorem seen_append_ahead_act (h : p.Within tag) (d : Disk) :
    (p.act d).1.seen ++ (p.act d).1.ahead (p.act d).2 = p.seen ++ p.ahead d := by
  obtain ⟨engine, todo, course, seen⟩ := p
  match course, todo with
  | some (.sends q e next), _ => rfl
  | some (.ended answer e), _ => exact List.append_assoc _ _ _
  | none, r :: rest =>
    have hon := (r.follows tag).on engine d h
    simp only [Session.act, ahead, Site.observations, hon]
  | none, [] => rfl

/-- A turn hangs on the session's tables only. -/
theorem act_alike (h : p.Within tag) (hd : d.Alike (Graph.IsTableName tag) d') :
    (p.act d).1 = (p.act d').1 ∧ (p.act d).2.Alike (Graph.IsTableName tag) (p.act d').2 := by
  obtain ⟨engine, todo, course, seen⟩ := p
  match course, todo with
  | some (.sends q e next), _ =>
    obtain ⟨hanswer, hdisk⟩ :=
      Statement.send_alike (fun _ => Graph.IsTableName.isPlain) h.1 hd e.store
    exact ⟨by simp only [act, hanswer], hdisk⟩
  | some (.ended answer e), _ => exact ⟨rfl, hd⟩
  | none, r :: rest => exact ⟨rfl, hd⟩
  | none, [] => exact ⟨rfl, hd⟩

/-- A turn leaves the tables of other tags as they are. -/
theorem act_foreign (h : p.Within tag') (hapart : Graph.Apart tag tag') (d : Disk) :
    (p.act d).2.Alike (Graph.IsTableName tag) d := by
  obtain ⟨engine, todo, course, seen⟩ := p
  match course, todo with
  | some (.sends q e next), _ =>
    refine Statement.send_foreign (fun n hn => ?_) e.store d
    obtain ⟨i, rfl⟩ := hn
    obtain ⟨j, hj⟩ := h.1 q.target (Statement.target_mem_names q)
    rw [hj]
    exact hapart i j
  | some (.ended answer e), _ => exact .refl _ d
  | none, r :: rest => exact .refl _ d
  | none, [] => exact .refl _ d

theorem tracks_new {e : Engine} (he : e.Bears tag) (todo : List Request) (d : Disk) :
    (new e todo).Tracks tag (Site.observations ⟨d, e⟩ todo) d :=
  ⟨he, d, .refl _ d, rfl⟩

theorem Tracks.act (h : p.Tracks tag os d) : (p.act d).1.Tracks tag os (p.act d).2 := by
  obtain ⟨hp, d', hd, hos⟩ := h
  -- The turn is the same on the session's own disk, where it changes nothing in what is seen in all.
  obtain ⟨hact, hdisk⟩ := act_alike hp hd
  refine ⟨hp.act d, (p.act d').2, hdisk, ?_⟩
  rw [hact, seen_append_ahead_act hp, hos]

/-- A session does not notice the turns of others. -/
theorem Tracks.foreign {q : Session} (h : p.Tracks tag os d) (hq : q.Within tag')
    (hapart : Graph.Apart tag tag') : p.Tracks tag os (q.act d).2 := by
  obtain ⟨hp, d', hd, hos⟩ := h
  exact ⟨hp, d', (act_foreign hq hapart d).trans hd, hos⟩

theorem Tracks.shows (h : p.Tracks tag os d) : p.Shows os := by
  obtain ⟨-, d', -, hos⟩ := h
  refine ⟨⟨_, hos⟩, fun ⟨htodo, hcourse⟩ => ?_⟩
  rw [← hos, ahead, hcourse, htodo]
  exact (List.append_nil _).symm

/-! ## The end of a session -/

/-- The session ends its requests in the course of its turns, whatever the disk holds at each. -/
inductive Ends : Session → Prop
  | done {p : Session} (h : p.IsDone) : Ends p
  | act {p : Session} (h : ∀ d, Ends (p.act d).1) : Ends p

/-- A request that is under way ends, and the session goes on with the others. -/
theorem ends_of_course {todo : List Request} (h : ∀ e seen, Ends ⟨e, todo, none, seen⟩)
    (c : Course Reply) (e : Engine) (seen : List Observation) : Ends ⟨e, todo, some c, seen⟩ := by
  induction c with
  | ended answer e => exact .act fun _ => h e _
  | sends q e next ih => exact .act fun d => ih (q.send e.store d).1

theorem ends_of_idle (todo : List Request) (e : Engine) (seen : List Observation) :
    Ends ⟨e, todo, none, seen⟩ := by
  induction todo generalizing e seen with
  | nil => exact .done ⟨rfl, rfl⟩
  | cons r rest ih => exact .act fun _ => ends_of_course ih _ _ _

theorem ends (p : Session) : p.Ends := by
  obtain ⟨engine, todo, course, seen⟩ := p
  cases course with
  | none => exact ends_of_idle todo engine seen
  | some c => exact ends_of_course (ends_of_idle todo) c engine seen

end Session

/-! ## Sessions at work together -/

theorem Workspace.outcome_onEngine {α : Type} {w : Workspace} {k : SessionId} {e : Engine}
    (he : w.engine? k = some e) (x : EngineM α) :
    outcome (onEngine k x w) = ((outcome (x ⟨w.disk, e⟩)).1,
      ⟨(outcome (x ⟨w.disk, e⟩)).2.disk,
        w.engines.setIfInBounds k (outcome (x ⟨w.disk, e⟩)).2.engine⟩) := by
  rw [engine?] at he
  simp only [onEngine, he, EStateM.run]
  cases x ⟨w.disk, e⟩ <;> rfl

/-- Sessions at work on one disk. -/
structure Sharing where
  disk : Disk
  sessions : Array Session

namespace Sharing

/-- The sessions of a workspace, each with its requests before it. -/
def start (w : Workspace) (requests : SessionId → List Request) : Sharing :=
  ⟨w.disk, w.engines.mapIdx fun k e => .new e (requests k)⟩

/-- A session has a turn. -/
def turn (m : Sharing) (k : SessionId) : Sharing :=
  match m.sessions[k]? with
  | none => m
  | some p => ⟨(p.act m.disk).2, m.sessions.setIfInBounds k (p.act m.disk).1⟩

/-- The sessions have turns in some order. -/
def after (m : Sharing) (turns : List SessionId) : Sharing := turns.foldl turn m

variable {m : Sharing} {tag : SessionId → String} {os : SessionId → List Observation}

/-- Every session sees its observations, and the names of tables are apart. -/
structure Undisturbed (tag : SessionId → String) (os : SessionId → List Observation) (m : Sharing) :
    Prop where
  tracks : ∀ {k : SessionId} {p : Session}, m.sessions[k]? = some p →
    p.Tracks (tag k) (os k) m.disk
  apart : ∀ {j k}, j < m.sessions.size → k < m.sessions.size → j ≠ k → Graph.Apart (tag j) (tag k)

theorem Undisturbed.turn (h : m.Undisturbed tag os) (k : SessionId) :
    (m.turn k).Undisturbed tag os := by
  rw [Sharing.turn]
  cases hk : m.sessions[k]? with
  | none => exact h
  | some p =>
    have hlt : k < m.sessions.size := (Array.getElem?_eq_some_iff.1 hk).1
    refine ⟨fun {j q} hj => ?_, fun {i j} hi hj => ?_⟩
    · dsimp only at hj
      by_cases hjk : k = j
      · subst hjk
        rw [Array.getElem?_setIfInBounds_self_of_lt hlt, Option.some.injEq] at hj
        exact hj ▸ (h.tracks hk).act
      · rw [Array.getElem?_setIfInBounds_ne hjk] at hj
        have hlt' : j < m.sessions.size := (Array.getElem?_eq_some_iff.1 hj).1
        exact (h.tracks hj).foreign (h.tracks hk).1 (h.apart hlt' hlt (Ne.symm hjk))
    · rw [Array.size_setIfInBounds] at hi hj
      exact h.apart hi hj

theorem Undisturbed.after (h : m.Undisturbed tag os) (turns : List SessionId) :
    (m.after turns).Undisturbed tag os := by
  induction turns generalizing m with
  | nil => exact h
  | cons k turns ih => exact ih (h.turn k)

theorem undisturbed_start {w : Workspace}
    (hbears : ∀ {k e}, w.engine? k = some e → e.Bears (tag k))
    (hapart : ∀ {j k}, j < w.engines.size → k < w.engines.size → j ≠ k → Graph.Apart (tag j) (tag k))
    (requests : SessionId → List Request) :
    (start w requests).Undisturbed tag fun k =>
      (w.engine? k).elim [] fun e => Site.observations ⟨w.disk, e⟩ (requests k) := by
  refine ⟨fun {k p} hk => ?_, fun {j k} hj hk => ?_⟩
  · rw [start, Array.getElem?_mapIdx, Option.map_eq_some_iff] at hk
    obtain ⟨e, he, rfl⟩ := hk
    have he : w.engine? k = some e := he
    rw [he]
    exact Session.tracks_new (hbears he) (requests k) w.disk
  · rw [start, Array.size_mapIdx] at hj hk
    exact hapart hj hk

/-! ## Requests without a break -/

theorem turn_eq {k : SessionId} {p : Session} (hk : m.sessions[k]? = some p) :
    m.turn k = ⟨(p.act m.disk).2, m.sessions.setIfInBounds k (p.act m.disk).1⟩ := by
  rw [turn, hk]

theorem getElem?_turn {k : SessionId} {p : Session} (hk : m.sessions[k]? = some p) :
    (m.turn k).sessions[k]? = some (p.act m.disk).1 := by
  rw [turn_eq hk]
  exact Array.getElem?_setIfInBounds_self_of_lt (Array.getElem?_eq_some_iff.1 hk).1

theorem disk_turn {k : SessionId} {p : Session} (hk : m.sessions[k]? = some p) :
    (m.turn k).disk = (p.act m.disk).2 := by
  rw [turn_eq hk]

theorem setIfInBounds_turn {k : SessionId} {p : Session} (hk : m.sessions[k]? = some p) (q : Session) :
    (m.turn k).sessions.setIfInBounds k q = m.sessions.setIfInBounds k q := by
  rw [turn_eq hk]
  exact Array.setIfInBounds_setIfInBounds ..

/-- What is left of a request is done as on a disk that nobody else uses, if the session has its turns
without a break. -/
theorem exists_after_course {todo : List Request} {seen : List Observation} (c : Course Reply)
    {m : Sharing} {k : SessionId} {e : Engine}
    (hk : m.sessions[k]? = some ⟨e, todo, some c, seen⟩) :
    ∃ n, m.after (List.replicate n k) = ⟨(c.on m.disk).2.disk, m.sessions.setIfInBounds k
      ⟨(c.on m.disk).2.engine, todo, none, seen ++ [⟨(c.on m.disk).1, (c.on m.disk).2.engine⟩]⟩⟩ := by
  induction c generalizing m e with
  | ended answer e => exact ⟨1, turn_eq hk⟩
  | sends q e' next ih =>
    obtain ⟨n, hn⟩ := ih _ (getElem?_turn hk)
    rw [disk_turn hk, setIfInBounds_turn hk] at hn
    exact ⟨n + 1, hn⟩

/-- The workspace with the engines of the sessions, as their last requests have left them. -/
def workspace (m : Sharing) : Workspace := ⟨m.disk, m.sessions.map Session.engine⟩

/-- **A request without a break is an operation of the workspace.** -/
theorem exists_after_request {k : SessionId} {e : Engine} {r : Request} {rest : List Request}
    {seen : List Observation} (hk : m.sessions[k]? = some ⟨e, r :: rest, none, seen⟩)
    {tag : String} (he : e.Bears tag) :
    ∃ n answer e', (m.after (List.replicate n k)).sessions =
        m.sessions.setIfInBounds k ⟨e', rest, none, seen ++ [⟨answer, e'⟩]⟩ ∧
      outcome (Workspace.onEngine k r.answer m.workspace) =
        (answer, (m.after (List.replicate n k)).workspace) := by
  obtain ⟨n, hn⟩ := exists_after_course _ (getElem?_turn hk)
  rw [disk_turn hk, setIfInBounds_turn hk] at hn
  have hafter : m.after (List.replicate (n + 1) k) = _ := hn
  refine ⟨n + 1, _, _, congrArg sessions hafter, ?_⟩
  have hengine : m.workspace.engine? k = some e := by
    rw [Workspace.engine?, workspace, Array.getElem?_map, hk]
    rfl
  rw [hafter, Workspace.outcome_onEngine hengine, workspace, workspace, Array.map_setIfInBounds]
  have hon : (r.script e).on m.disk = _ := (r.follows tag).on e m.disk he
  simp only [Session.act, hon]

/-! ## All requests come to an end -/

theorem size_after (m : Sharing) (turns : List SessionId) :
    (m.after turns).sessions.size = m.sessions.size := by
  induction turns generalizing m with
  | nil => rfl
  | cons k turns ih =>
    refine (ih (m.turn k)).trans ?_
    rw [turn]
    cases m.sessions[k]? with
    | none => rfl
    | some p => exact Array.size_setIfInBounds

theorem after_append (m : Sharing) (turns more : List SessionId) :
    m.after (turns ++ more) = (m.after turns).after more :=
  List.foldl_append

/-- A session comes to its end if it has enough turns. -/
theorem exists_done {k : SessionId} {p : Session} (hk : m.sessions[k]? = some p) :
    ∃ turns, (∃ q, (m.after turns).sessions[k]? = some q ∧ q.IsDone) ∧
      ∀ j, j ≠ k → (m.after turns).sessions[j]? = m.sessions[j]? := by
  induction p.ends generalizing m with
  | done hp => exact ⟨[], ⟨_, hk, hp⟩, fun _ _ => rfl⟩
  | @act p _ ih =>
    have hlt : k < m.sessions.size := (Array.getElem?_eq_some_iff.1 hk).1
    obtain ⟨turns, hdone, hothers⟩ := ih m.disk (getElem?_turn hk)
    refine ⟨k :: turns, hdone, fun j hj => (hothers j hj).trans ?_⟩
    rw [turn_eq hk, Array.getElem?_setIfInBounds_ne (Ne.symm hj)]

theorem exists_first_done (m : Sharing) (n : Nat) :
    ∃ turns, ∀ (k : SessionId) (p : Session), k < n →
      (m.after turns).sessions[k]? = some p → p.IsDone := by
  induction n with
  | zero => exact ⟨[], fun k p hk => absurd hk (Nat.not_lt_zero k)⟩
  | succ n ih =>
    obtain ⟨turns, hturns⟩ := ih
    cases hn : (m.after turns).sessions[n]? with
    | none =>
      refine ⟨turns, fun k p hk hp => ?_⟩
      rcases Nat.lt_succ_iff_lt_or_eq.1 hk with hk | rfl
      · exact hturns k p hk hp
      · rw [hn] at hp
        cases hp
    | some q =>
      -- The last of them comes to its end now, and those before it stay at theirs.
      obtain ⟨more, ⟨q', hq', hdone⟩, hothers⟩ := exists_done hn
      refine ⟨turns ++ more, fun k p hk hp => ?_⟩
      rw [after_append] at hp
      rcases Nat.lt_succ_iff_lt_or_eq.1 hk with hk | rfl
      · exact hturns k p hk ((hothers k (Nat.ne_of_lt hk)).symm.trans hp)
      · rw [hq', Option.some.injEq] at hp
        exact hp ▸ hdone

/-- Whatever has been done so far, all sessions can come to their ends. -/
theorem exists_all_done (m : Sharing) : ∃ turns, ∀ p ∈ (m.after turns).sessions, p.IsDone := by
  obtain ⟨turns, hturns⟩ := exists_first_done m m.sessions.size
  refine ⟨turns, fun p hp => ?_⟩
  obtain ⟨k, hk, rfl⟩ := Array.mem_iff_getElem.1 hp
  exact hturns k _ (size_after m turns ▸ hk) (Array.getElem?_eq_getElem hk)

/-- **Whatever the order of their turns, sessions see what each sees alone**, as long as the names of their
tables are apart. -/
theorem shows_after {w : Workspace} (hbears : ∀ {k e}, w.engine? k = some e → e.Bears (tag k))
    (hapart : ∀ {j k}, j < w.engines.size → k < w.engines.size → j ≠ k → Graph.Apart (tag j) (tag k))
    (requests : SessionId → List Request) (turns : List SessionId) {k : SessionId} {e : Engine}
    (he : w.engine? k = some e) :
    ∃ p, ((start w requests).after turns).sessions[k]? = some p ∧
      p.Shows (Site.observations ⟨w.disk, e⟩ (requests k)) := by
  have hlt : k < ((start w requests).after turns).sessions.size := by
    rw [size_after, start, Array.size_mapIdx]
    exact (Array.getElem?_eq_some_iff.1 he).1
  have htracks := ((undisturbed_start hbears hapart requests).after turns).tracks
    (Array.getElem?_eq_getElem hlt)
  rw [he] at htracks
  exact ⟨_, Array.getElem?_eq_getElem hlt, htracks.shows⟩

end Sharing

/-! ## Sessions that are opened on one file -/

/-- The file at a place, once it is there, is found again at every place that stands for it. -/
theorem Disk.open?_again {d d' : Disk} {p q : DiskPath} {file : DiskPath} {id : DatabaseId}
    (hp : p.file? = some file) (hq : q.file? = some file) (h : d.open? p = some (id, d')) :
    d'.open? q = some (id, d') ∧ d.open? q = some (id, d') := by
  simp only [open?, hp, hq, Option.map_some, Option.some.injEq] at h ⊢
  refine ⟨?_, h⟩
  cases hin : d.databaseIn file with
  | some c =>
    rw [hin] at h
    obtain ⟨rfl, rfl⟩ := Prod.mk.inj h
    rw [hin]
  | none =>
    rw [hin] at h
    obtain ⟨rfl, rfl⟩ := Prod.mk.inj h
    simp [databaseIn]

/-- Two sessions are opened on one file, one after the other. The second one is as if it had been opened
alone. -/
theorem Workspace.addSession_addSession {d : Disk} {config config' : Config} {path path' : String}
    {file : DiskPath} (hpath : config.databasePath = some path)
    (hpath' : config'.databasePath = some path') (hfile : (DiskPath.named path).file? = some file)
    (hfile' : (DiskPath.named path').file? = some file) (tag tag' : String) :
    ∃ s t, Engine.start d tag config = .ok s ∧ Engine.start d tag' config' = .ok t ∧
      s.disk = t.disk ∧ s.engine.Bears tag ∧ t.engine.Bears tag' ∧
      (do let _ ← addSession tag config; addSession tag' config') ⟨d, #[]⟩ =
        .ok 1 ⟨t.disk, #[s.engine, t.engine]⟩ := by
  have hopen : ∃ id d', d.open? (.named path) = some (id, d') := by
    rw [Disk.open?, hfile]
    exact ⟨_, _, rfl⟩
  obtain ⟨id, d', hopen⟩ := hopen
  obtain ⟨hagain, hfirst⟩ := Disk.open?_again hfile hfile' hopen
  have start {d : Disk} {config : Config} {path : String} (hpath : config.databasePath = some path)
      (h : d.open? (.named path) = some (id, d')) (tag : String) : Engine.start d tag config =
        .ok ⟨d', .empty tag, #[], ⟨some id, .named path, false, 0, ⟨0, 0, 0⟩⟩,
          .ofCapacity config.memoryCap, config, .weighted⟩ := by
    simp only [Engine.start, hpath, Option.map_some, Store.openAt, h]
    rfl
  refine ⟨_, _, start hpath hopen tag, start hpath' hfirst tag', rfl,
    ⟨Graph.wellFormed_empty tag, rfl⟩, ⟨Graph.wellFormed_empty tag', rfl⟩, ?_⟩
  simp only [bind, EStateM.bind, addSession, start hpath hopen tag, start hpath' hagain tag']
  rfl

namespace Sharing

/-- **Sessions on one file do not interfere.** Two sessions with different tags are opened on one file,
where names of tables are told apart exactly. In whatever order they have their turns, each sees what it
sees if it is opened alone and goes through its requests alone: the same answers, and after each the same
engine with its counters and its budget. They can always come to their ends. -/
theorem seen_as_alone {d : Disk} {tag tag' : String} {config config' : Config} {path path' : String}
    {file : DiskPath} (hpath : config.databasePath = some path)
    (hpath' : config'.databasePath = some path') (hfile : (DiskPath.named path).file? = some file)
    (hfile' : (DiskPath.named path').file? = some file) (htag : tag ≠ tag')
    (hexact : ∀ i j, sameName ((Graph.empty tag).tableName i) ((Graph.empty tag').tableName j) = true →
      (Graph.empty tag).tableName i = (Graph.empty tag').tableName j) :
    ∃ w s t, (do let _ ← Workspace.addSession tag config; Workspace.addSession tag' config')
        ⟨d, #[]⟩ = .ok 1 w ∧
      Engine.start d tag config = .ok s ∧ Engine.start d tag' config' = .ok t ∧
      ∀ (requests : SessionId → List Request) (turns : List SessionId),
        (∃ p, ((start w requests).after turns).sessions[0]? = some p ∧
          p.Shows (s.observations (requests 0))) ∧
        (∃ q, ((start w requests).after turns).sessions[1]? = some q ∧
          q.Shows (t.observations (requests 1))) ∧
        ∃ more, ∀ p ∈ ((start w requests).after (turns ++ more)).sessions, p.IsDone := by
  obtain ⟨s, t, hs, ht, hdisk, hbears, hbears', hw⟩ :=
    Workspace.addSession_addSession (d := d) hpath hpath' hfile hfile' tag tag'
  have hapart := Graph.apart_of_ne htag hexact
  -- From here on nothing hangs on there being two sessions.
  let w : Workspace := ⟨t.disk, #[s.engine, t.engine]⟩
  let tags : SessionId → String := fun k => if k = 0 then tag else tag'
  have hall : ∀ {k e}, w.engine? k = some e → e.Bears (tags k) := fun {k e} he => by
    match k, he with
    | 0, he => exact Option.some.inj he ▸ hbears
    | 1, he => exact Option.some.inj he ▸ hbears'
    | k + 2, he => cases he
  have hallApart : ∀ {j k}, j < w.engines.size → k < w.engines.size → j ≠ k →
      Graph.Apart (tags j) (tags k) := fun {j k} hj hk hjk => by
    have hcases : j = 0 ∧ k = 1 ∨ j = 1 ∧ k = 0 := by
      have hj : j < 2 := hj
      have hk : k < 2 := hk
      omega
    obtain ⟨rfl, rfl⟩ | ⟨rfl, rfl⟩ := hcases
    · exact hapart
    · exact hapart.symm
  refine ⟨w, s, t, hw, hs, ht, fun requests turns => ⟨?_, ?_, ?_⟩⟩
  · have h := shows_after hall hallApart requests turns (k := 0) rfl
    rwa [show w.disk = s.disk from hdisk.symm] at h
  · exact shows_after hall hallApart requests turns (k := 1) rfl
  · obtain ⟨more, hmore⟩ := exists_all_done ((start w requests).after turns)
    exact ⟨more, fun p hp => hmore p (by rwa [after_append] at hp)⟩

theorem seen_as_alone_numberedTags :
    ∃ w s t, (do let _ ← Workspace.addSession "1" (Config.standard.withDatabasePath "f")
                 Workspace.addSession "1_2" (Config.standard.withDatabasePath "f"))
        ⟨.empty, #[]⟩ = .ok 1 w ∧
      Engine.start .empty "1" (Config.standard.withDatabasePath "f") = .ok s ∧
      Engine.start .empty "1_2" (Config.standard.withDatabasePath "f") = .ok t ∧
      ∀ (requests : SessionId → List Request) (turns : List SessionId),
        (∃ p, ((start w requests).after turns).sessions[0]? = some p ∧
          p.Shows (s.observations (requests 0))) ∧
        (∃ q, ((start w requests).after turns).sessions[1]? = some q ∧
          q.Shows (t.observations (requests 1))) ∧
        ∃ more, ∀ p ∈ ((start w requests).after (turns ++ more)).sessions, p.IsDone := by
  have hparts : nameParts "f" = ["f"] := by
    rw [nameParts, String.splitOn, if_neg (by decide), String.splitOnAux, if_neg (by decide),
      if_neg (by decide), String.splitOnAux, if_pos (by decide)]
    decide
  have hfile : (DiskPath.named "f").file? = some (.named "f") := by
    have hstart : "f".startsWith "/" = false :=
      String.startsWith_string_eq_false_iff.2 (by decide)
    rw [DiskPath.file?, fileNamed?, hstart, hparts]
    decide
  exact seen_as_alone rfl rfl hfile hfile (by decide) fun i j h =>
    absurd (Graph.sameName_tag h) (by decide)

end Sharing
end LazyQuery
