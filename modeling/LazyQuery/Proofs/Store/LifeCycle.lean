import LazyQuery.Proofs.Store.Files
import LazyQuery.Proofs.Store.Statements

/-!
# The life of a database file

A store moves from file to file, and it takes files away: one that it made itself when it leaves it,
another one when it is told to. Between two moves it loads tables and creates them.

* `Store.Command` lists the calls that change something, and `Store.afterAll` makes one after the other.
* `Disk.open?_of_file?` and `Disk.databaseIn_delete` say what opening and deleting do to each file. A
  file goes only by a name that leads straight to it (`DiskPath.isDirect`), because the store asks first
  whether something is there.
* Every call either leaves files and place alone (`Mounted.Stays`) or lets go of the connection, in which
  case `Store.setPath_eq` and `Store.close_eq` say all that it does.
* The new file is opened before the old one is deleted. If both are the same, the store is left with a
  database that has no file any more, and refuses every change (`Store.Command.run_of_moved`).
-/

set_option autoImplicit false

namespace LazyQuery

open Sql

/-! ## What opening and deleting do to files -/

/-- Does the last part of the name lead to the file, and every part before it stay where it is? -/
def DiskPath.isDirect : DiskPath → Bool
  | named name => ((nameParts name).dropWhile staysPut).length == 1
  | temporary _ => true

namespace Disk

variable {d d' : Disk} {p : DiskPath} {file other : DiskPath} {id : DatabaseId}

theorem databaseIn_delete (d : Disk) (p file : DiskPath) : (d.delete p).databaseIn file =
    if d.exists? p = true ∧ p.file? = some file then none else d.databaseIn file := by
  rw [delete]
  by_cases he : d.exists? p = true
  · simp only [he, if_true, true_and, databaseIn, List.find?_filter]
    by_cases hf : p.file? = some file
    · rw [if_pos hf, List.find?_eq_none.2, Option.map_none]
      intro f _
      simp [hf]
    · rw [if_neg hf]
      congr 2
      funext f
      by_cases h : f.1 = file
      · simp [h, Ne.symm hf]
      · simp [h]
  · simp [he]

theorem open?_of_file?_none (hp : p.file? = none) : d.open? p = none := by
  rw [open?, hp, Option.map_none]

/-- A file that is there stays, and it is its database that is opened. -/
theorem open?_of_file? (d : Disk) (hp : p.file? = some file) : ∃ id d', d.open? p = some (id, d') ∧
    d'.databaseIn file = some id ∧ ∀ other, other ≠ file → d'.databaseIn other = d.databaseIn other := by
  rw [open?, hp]
  cases hin : d.databaseIn file with
  | some c => exact ⟨c, d, by simp [hin], hin, fun _ _ => rfl⟩
  | none =>
    refine ⟨d.databases.size, _, by simp [hin]; rfl, by simp [databaseIn], fun other ho => ?_⟩
    simp [databaseIn, Ne.symm ho]

/-- Follow one part of a name from the directories that the parts before it lead to. -/
def follow (place : List String) (part : String) : Option (List String) :=
  if staysPut part then some place
  else if part == ".." then place.tail?
  else if isFileName part then some (part :: place)
  else none

theorem foldlM_of_fileNamed? {name file : String} (h : fileNamed? name = some file) :
    (nameParts name).foldlM follow [] = some [file] := by
  rw [fileNamed?] at h
  split at h
  · cases h
  · split at h
    · rename_i heq
      rw [← Option.some.inj h]
      exact heq
    · cases h

/-- A name with more parts than one that lead somewhere passes through a file, where there is nothing. -/
theorem reaches_eq (d : Disk) {parts : List String} {file : String}
    (h : parts.foldlM follow [] = some [file]) :
    d.reaches parts =
      ((parts.dropWhile staysPut).length == 1 && (d.databaseIn (.named file)).isSome) := by
  induction parts with
  | nil => cases h
  | cons part rest ih =>
    rw [List.foldlM_cons] at h
    obtain ⟨place, hplace, hrest⟩ := Option.bind_eq_some_iff.1 h
    simp only [follow] at hplace
    rw [reaches]
    by_cases hs : staysPut part = true
    · rw [if_pos hs] at hplace ⊢
      obtain rfl := Option.some.inj hplace
      rw [ih hrest, List.dropWhile_cons_of_pos hs]
    rw [if_neg hs] at hplace ⊢
    rw [List.dropWhile_cons_of_neg hs]
    split at hplace
    · cases hplace
    rename_i hdots
    rw [if_neg hdots]
    split at hplace
    · obtain rfl := Option.some.inj hplace
      cases rest with
      | nil =>
        obtain rfl : part = file := by simpa using hrest
        simp
      | cons => simp
    · cases hplace

theorem exists?_eq (d : Disk) (hp : p.file? = some file) :
    d.exists? p = (p.isDirect && (d.databaseIn file).isSome) := by
  cases p with
  | named name =>
    obtain ⟨f, hf, rfl⟩ := Option.map_eq_some_iff.1 hp
    exact d.reaches_eq (foldlM_of_fileNamed? hf)
  | temporary n =>
    obtain rfl := Option.some.inj hp
    rfl

end Disk

/-! ## Calls that leave files and place alone -/

namespace Mounted

variable {m m' m'' : Mounted}

/-- Files and store are as before, but for the contents of databases and for counters. -/
structure Stays (m m' : Mounted) : Prop where
  files : m'.disk.files = m.disk.files
  store : ∃ counters, m'.store = { m.store with counters := counters }

theorem Stays.refl (m : Mounted) : Stays m m := ⟨rfl, _, rfl⟩

theorem Stays.trans (h : Stays m m') (h' : Stays m' m'') : Stays m m'' := by
  obtain ⟨_, hs⟩ := h.store
  obtain ⟨counters, hs'⟩ := h'.store
  exact ⟨h'.files.trans h.files, counters, by rw [hs', hs]⟩

end Mounted

/-- The operation leaves files and place alone, however it ends. -/
def StaysPut {α : Type} (x : StoreM α) : Prop :=
  ∀ m, Ends x m (fun _ m' => m.Stays m') fun _ m' => m.Stays m'

theorem StaysPut.bind {α β : Type} {x : StoreM α} {f : α → StoreM β} (hx : StaysPut x)
    (hf : ∀ a, StaysPut (f a)) : StaysPut (x >>= f) := fun m =>
  (hx m).bind fun a _ h => (hf a _).mono (fun _ _ => h.trans) fun _ _ => h.trans

theorem Statement.staysPut_run (p : Statement) : StaysPut p.run := by
  intro m
  rw [Ends, p.run_eq]
  cases m.store.connection with
  | none => exact .refl m
  | some c =>
    dsimp only
    obtain e | ⟨a, _ | db⟩ := p.eval (m.disk.database c)
    · exact .refl m
    · exact .refl m
    · dsimp only
      cases m.isReadOnly with
      | true => exact .refl m
      | false => exact ⟨rfl, _, rfl⟩

/-- If changes are refused, only statements that make none have an answer, and nothing is changed. -/
theorem Statement.run_of_isReadOnly {m : Mounted} (hr : m.isReadOnly = true) (p : Statement) :
    (∃ e, p.run m = .error e m) ∨ ∃ a c, p.run m = .ok a m ∧ p.eval (m.disk.database c) = .ok (a, none) := by
  rw [p.run_eq]
  cases m.store.connection with
  | none => exact .inl ⟨_, rfl⟩
  | some c =>
    dsimp only
    match he : p.eval (m.disk.database c) with
    | .error e => exact .inl ⟨e, rfl⟩
    | .ok (a, none) => exact .inr ⟨a, c, rfl, he⟩
    | .ok (a, some db) => exact .inl ⟨.statement, if_pos hr⟩

theorem staysPut_count (f : StoreCounters → StoreCounters) : StaysPut (Store.count f) :=
  fun _ => ⟨rfl, _, rfl⟩

namespace Store

theorem staysPut_bulkLoad (name : String) (t : Table) (s : Schema) : StaysPut (bulkLoad name t s) := by
  rw [Statement.bulkLoad_eq]
  exact (Statement.staysPut_run _).bind fun _ => (Statement.staysPut_run _).bind fun _ =>
    (Statement.staysPut_run _).bind fun _ => staysPut_count _

theorem staysPut_createTableAs (name : String) (q : Query) : StaysPut (createTableAs name q) := by
  rw [Statement.createTableAs_eq]
  exact (Statement.staysPut_run _).bind fun _ => (Statement.staysPut_run _).bind fun _ =>
    staysPut_count _

/-! ## Calls that let go of the connection -/

variable {m m' : Mounted}

theorem setPath_eq (p : DiskPath) (deleteOld : Bool) (m : Mounted) : setPath p deleteOld m =
    match m.disk.open? p with
    | none => .error .statement m
    | some (id, disk) =>
      .ok ⟨⟩ ⟨if deleteOld || m.store.owned then disk.delete m.store.path else disk,
        some id, p, false, m.store.generation + 1, m.store.counters⟩ := by
  dsimp only [setPath, bind, EStateM.bind, get, getThe, MonadStateOf.get, EStateM.get]
  cases m.disk.open? p <;> rfl

theorem close_eq (delete : Bool) (m : Mounted) : close delete m =
    .ok ⟨⟩ ⟨if delete || m.store.owned then m.disk.delete m.store.path else m.disk,
      none, m.store.path, false, m.store.generation + 1, m.store.counters⟩ := rfl

/-- Letting go of the connection deletes the file. -/
def Deletes (m : Mounted) (asked : Bool) (file : DiskPath) : Prop :=
  (asked = true ∨ m.store.owned = true) ∧ m.store.path.file? = some file ∧
    m.store.path.isDirect = true

instance (m : Mounted) (asked : Bool) (file : DiskPath) : Decidable (Deletes m asked file) :=
  inferInstanceAs (Decidable (_ ∧ _ ∧ _))

/-- What is in a file of a disk on which the store lets go of its connection. -/
theorem databaseIn_released (m : Mounted) (d : Disk) (asked : Bool) (file : DiskPath) :
    (if asked || m.store.owned then d.delete m.store.path else d).databaseIn file =
      if Deletes m asked file then none else d.databaseIn file := by
  by_cases ha : (asked || m.store.owned) = true
  · rw [if_pos ha, Disk.databaseIn_delete]
    rw [Bool.or_eq_true] at ha
    by_cases hf : m.store.path.file? = some file
    · cases hin : d.databaseIn file <;> simp [Deletes, ha, hf, Disk.exists?_eq d hf, hin]
    · simp [Deletes, hf]
  · rw [if_neg ha]
    rw [Bool.or_eq_true] at ha
    rw [if_neg fun h => ha h.1]

/-- A file that cannot be opened leaves everything as it was. -/
theorem setPath_of_file?_none {p : DiskPath} (hp : p.file? = none) (deleteOld : Bool) (m : Mounted) :
    setPath p deleteOld m = .error .statement m := by
  rw [setPath_eq, Disk.open?_of_file?_none hp]

/-- Any other file is opened before the one before it goes. -/
theorem setPath_of_file? {p file : DiskPath} (hp : p.file? = some file) (deleteOld : Bool) (m : Mounted) :
    ∃ id disk, setPath p deleteOld m =
        .ok ⟨⟩ ⟨disk, some id, p, false, m.store.generation + 1, m.store.counters⟩ ∧
      disk.databaseIn file = (if Deletes m deleteOld file then none else some id) ∧
      ∀ other, other ≠ file → disk.databaseIn other =
        if Deletes m deleteOld other then none else m.disk.databaseIn other := by
  obtain ⟨id, d, hopen, hin, hother⟩ := m.disk.open?_of_file? hp
  refine ⟨id, _, by rw [setPath_eq, hopen], ?_, fun other ho => ?_⟩
  · rw [databaseIn_released, hin]
  · rw [databaseIn_released, hother other ho]

/-! ## Sequences of calls -/

/-- A call that changes the store, its tables or its files. -/
inductive Command
  /-- Load a table. -/
  | bulkLoad (name : String) (table : Table) (schema : Schema)
  /-- Create a table from a query. -/
  | createTableAs (name : String) (query : Query)
  /-- Move to another file. -/
  | setPath (path : DiskPath) (deleteOld : Bool)
  /-- Close the connection. -/
  | close (delete : Bool)

namespace Command

/-- The operation that is called. -/
def run : Command → StoreM Unit
  | bulkLoad name t s => Store.bulkLoad name t s
  | createTableAs name q => Store.createTableAs name q
  | setPath p deleteOld => Store.setPath p deleteOld
  | close delete => Store.close delete

/-- Is it asked for the file to be deleted, if the call lets go of the connection? -/
def lettingGo? : Command → Option Bool
  | setPath _ delete | close delete => some delete
  | bulkLoad .. | createTableAs .. => none

/-- Files and store after the call, however it ends. -/
def after (c : Command) (m : Mounted) : Mounted :=
  match c.run m with
  | .ok _ m' | .error _ m' => m'

variable {c : Command}

theorem after_eq {a : Unit} (h : c.run m = .ok a m') : c.after m = m' := by
  rw [after, h]

theorem after_eq_of_error {e : StoreError} (h : c.run m = .error e m') : c.after m = m' := by
  rw [after, h]

theorem stays_after (hc : c.lettingGo? = none) (m : Mounted) : m.Stays (c.after m) := by
  have h : StaysPut c.run := by
    cases c with
    | bulkLoad => exact staysPut_bulkLoad _ _ _
    | createTableAs => exact staysPut_createTableAs _ _
    | setPath | close => cases hc
  have := h m
  rw [Ends] at this
  rw [after]
  cases hr : c.run m <;> rw [hr] at this <;> exact this

/-- A store whose file has gone refuses every change, and nothing is changed. -/
theorem run_of_moved (hc : c.lettingGo? = none) (hm : isMoved m = true) :
    ∃ e, c.run m = .error e m := by
  have hr : m.isReadOnly = true := by rw [Mounted.isReadOnly, hm, Bool.true_or]
  -- Dropping a table that is not there is no change, but creating one always is.
  have creates (p : Statement) (hp : ∀ db a, p.eval db ≠ .ok (a, none)) : ∃ e, p.run m = .error e m :=
    (p.run_of_isReadOnly hr).resolve_right (by rintro ⟨a, c, -, h⟩; exact hp _ a h)
  have dropsFirst (name : String) {f : Unit → StoreM Unit} (hf : ∃ e, f ⟨⟩ m = .error e m) :
      ∃ e, ((Statement.drop name).run >>= f) m = .error e m := by
    obtain ⟨e, h⟩ | ⟨_, _, h, -⟩ := (Statement.drop name).run_of_isReadOnly hr
    · exact ⟨e, run_bind_of_error h⟩
    · rwa [run_bind_of_ok h]
  cases c with
  | setPath | close => cases hc
  | bulkLoad name t s =>
    rw [run, Statement.bulkLoad_eq]
    obtain ⟨e, h⟩ := creates (.create name s) fun db a h => by
      dsimp only [Statement.eval] at h
      split at h <;> cases h
    exact dropsFirst name ⟨e, run_bind_of_error h⟩
  | createTableAs name q =>
    rw [run, Statement.createTableAs_eq]
    obtain ⟨e, h⟩ := creates (.createAs name q) fun db a h => by
      dsimp only [Statement.eval] at h
      split at h
      · split at h <;> cases h
      · cases h
    exact dropsFirst name ⟨e, run_bind_of_error h⟩

end Command

/-- Files and store after some calls. -/
def afterAll (m : Mounted) (calls : List Command) : Mounted := calls.foldl (fun m c => c.after m) m

/-- The store owns the file it was opened on if it made the file itself, and until it lets go of it. -/
structure OwnsAtFirst (disk : Disk) (path : Option DiskPath) (m : Mounted) : Prop where
  owned_iff : m.store.owned = true ↔ path = none ∧ m.store.generation = 0
  place : m.store.owned = true → m.store.path = disk.temporary.1

variable {disk : Disk} {path : Option DiskPath}

theorem ownsAtFirst_openAt (h : openAt disk path = .ok m) : OwnsAtFirst disk path m := by
  obtain ⟨d₀, id, -, hs, hpath⟩ := openAt_eq_ok h
  refine ⟨by rw [hs]; simp, fun ho => ?_⟩
  obtain ⟨hp, -⟩ | ⟨-, hp⟩ := hpath
  · rw [hs, hp] at ho
    cases ho
  · exact congrArg Prod.fst hp

theorem OwnsAtFirst.of_moved (hg : m'.store.generation = m.store.generation + 1)
    (ho : m'.store.owned = false) : OwnsAtFirst disk path m' :=
  ⟨by simp [ho, hg], by simp [ho]⟩

theorem OwnsAtFirst.after (h : OwnsAtFirst disk path m) (c : Command) :
    OwnsAtFirst disk path (c.after m) := by
  cases hc : c.lettingGo? with
  | none =>
    obtain ⟨_, hs⟩ := (c.stays_after hc m).store
    exact ⟨by rw [hs]; exact h.owned_iff, by rw [hs]; exact h.place⟩
  | some asked =>
    cases c with
    | bulkLoad | createTableAs => cases hc
    | close => exact .of_moved (m := m) rfl rfl
    | setPath p deleteOld =>
      cases hp : p.file? with
      | none =>
        have hrun := setPath_of_file?_none hp deleteOld m
        rwa [Command.after_eq_of_error (c := .setPath p deleteOld) hrun]
      | some file =>
        obtain ⟨id, d, hrun, -⟩ := setPath_of_file? hp deleteOld m
        rw [Command.after_eq (c := .setPath p deleteOld) hrun]
        exact .of_moved (m := m) rfl rfl

theorem OwnsAtFirst.afterAll (h : OwnsAtFirst disk path m) (calls : List Command) :
    OwnsAtFirst disk path (afterAll m calls) := by
  induction calls generalizing m with
  | nil => exact h
  | cons c rest ih => exact ih (h.after c)

/-- A file that is there goes only when the store lets go of it. -/
theorem Command.removes_iff (c : Command) {file : DiskPath} (hf : m.disk.databaseIn file ≠ none) :
    (c.after m).disk.databaseIn file = none ↔
      (∃ m', c.run m = .ok ⟨⟩ m') ∧ ∃ asked, c.lettingGo? = some asked ∧ Deletes m asked file := by
  cases c with
  | bulkLoad | createTableAs =>
    rw [Disk.databaseIn, (stays_after rfl m).files]
    refine iff_of_false hf ?_
    rintro ⟨_, _, h, _⟩
    cases h
  | close delete =>
    have hrun : (Command.close delete).run m = _ := close_eq delete m
    rw [after_eq hrun, databaseIn_released, hrun]
    simp [lettingGo?, hf]
  | setPath p deleteOld =>
    cases hp : p.file? with
    | none =>
      have hrun : (Command.setPath p deleteOld).run m = _ := setPath_of_file?_none hp deleteOld m
      rw [after_eq_of_error hrun, hrun]
      refine iff_of_false hf ?_
      rintro ⟨⟨_, h⟩, _⟩
      cases h
    | some new =>
      obtain ⟨id, d, hrun, hnew, hother⟩ := setPath_of_file? hp deleteOld m
      replace hrun : (Command.setPath p deleteOld).run m = _ := hrun
      rw [after_eq hrun, hrun]
      by_cases h : file = new
      · subst h
        simp [lettingGo?, hnew]
      · simp [lettingGo?, hother file h, hf]

/-- **The life of a database file.** However a store has been used since it was opened:

* it owns its file if it made the file itself and has not moved or closed since;
* a move to a place that cannot be opened changes nothing;
* any other move succeeds and raises the generation by one, and the store is open on the file that it
  was sent to, unless that is the very file that it leaves and deletes, in which case there is no such
  file any more and every change is refused;
* closing succeeds and raises the generation by one, and no other call changes it;
* a file that is there goes only with a move or a closing that succeeds, if it is the file that the store
  leaves, and is the store's own or was asked to be deleted. -/
theorem lifeCycle {m₀ : Mounted} (h : openAt disk path = .ok m₀) (calls : List Command)
    (hm : m = afterAll m₀ calls) :
    OwnsAtFirst disk path m ∧
      (∀ p deleteOld, p.file? = none → setPath p deleteOld m = .error .statement m) ∧
      (∀ p deleteOld file, p.file? = some file → ∃ m' id, setPath p deleteOld m = .ok ⟨⟩ m' ∧
        m'.store = ⟨some id, p, false, m.store.generation + 1, m.store.counters⟩ ∧
        m'.disk.lookup p = (if Deletes m deleteOld file then none else some id) ∧
        (Deletes m deleteOld file →
          ∀ c : Command, c.lettingGo? = none → ∃ e, c.run m' = .error e m')) ∧
      (∀ delete, ∃ m', close delete m = .ok ⟨⟩ m' ∧
        m'.store = ⟨none, m.store.path, false, m.store.generation + 1, m.store.counters⟩) ∧
      (∀ c : Command, c.lettingGo? = none → m.Stays (c.after m)) ∧
      ∀ (c : Command) (file : DiskPath), m.disk.databaseIn file ≠ none →
        ((c.after m).disk.databaseIn file = none ↔
          (∃ m', c.run m = .ok ⟨⟩ m') ∧ ∃ asked, c.lettingGo? = some asked ∧ Deletes m asked file) := by
  refine ⟨hm ▸ (ownsAtFirst_openAt h).afterAll calls, fun p deleteOld hp => setPath_of_file?_none hp _ m,
    fun p deleteOld file hp => ?_, fun delete => ⟨_, close_eq delete m, rfl⟩,
    fun c hc => c.stays_after hc m, fun c file hf => c.removes_iff hf⟩
  obtain ⟨id, d, hrun, hin, -⟩ := setPath_of_file? hp deleteOld m
  have hlookup : d.lookup p = if Deletes m deleteOld file then none else some id := by
    rw [Disk.lookup, hp, Option.bind_some, hin]
  refine ⟨_, id, hrun, rfl, hlookup, fun hdel c hc => c.run_of_moved hc ?_⟩
  rw [isMoved, hlookup, if_pos hdel]
  rfl

/-- A store that made its own file and is sent to just that file has no file afterwards. -/
theorem lifeCycle_ownFile : ∃ m₀, openAt .empty none = .ok m₀ ∧
    ∃ m', setPath (.temporary 0) false m₀ = .ok ⟨⟩ m' ∧ m'.disk.lookup (.temporary 0) = none := by
  obtain ⟨m₀, h⟩ : ∃ m₀, openAt .empty none = .ok m₀ := ⟨_, rfl⟩
  obtain ⟨m', id, hrun, -, hlookup, -⟩ := (lifeCycle h [] rfl).2.2.1 (.temporary 0) false _ rfl
  refine ⟨m₀, h, m', hrun, hlookup.trans (if_pos ?_)⟩
  cases h
  exact ⟨.inr rfl, rfl, rfl⟩

end Store
end LazyQuery
