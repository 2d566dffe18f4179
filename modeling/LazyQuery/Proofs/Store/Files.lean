import LazyQuery.Proofs.Store.Operations

/-!
# Files and connections

What a store does to the files of a disk when it opens, moves or closes. Databases stay as they are:
a new file gets a new one, and deleting a file takes away its name only (`Disk.Keeps`).

An operation of the store on one table leaves the tables of all other names alone, in whatever
database they are (`Disk.KeepsBut`).
-/

set_option autoImplicit false

namespace LazyQuery

namespace Disk

/-- Every file holds a database of the disk. -/
def Valid (d : Disk) : Prop := ∀ f ∈ d.files, f.2 < d.databases.size

/-- The disk `d'` has the databases of `d` as they are, and possibly more. -/
structure Keeps (d d' : Disk) : Prop where
  size : d.databases.size ≤ d'.databases.size
  database : ∀ c, c < d.databases.size → d'.database c = d.database c

/-- The disk `d'` has the tables of `d` as they are, but for those of some names, and possibly more
databases. -/
structure KeepsBut (own : String → Prop) (d d' : Disk) : Prop where
  valid : d.Valid → d'.Valid
  size : d.databases.size ≤ d'.databases.size
  table : ∀ c, c < d.databases.size → ∀ name, ¬own name →
    (d'.database c).table? name = (d.database c).table? name

variable {d d' d'' : Disk} {p : DiskPath} {id : DatabaseId} {own own' : String → Prop}

theorem KeepsBut.refl (own : String → Prop) (d : Disk) : KeepsBut own d d :=
  ⟨fun h => h, Nat.le_refl _, fun _ _ _ _ => rfl⟩

theorem KeepsBut.trans (h : KeepsBut own d d') (h' : KeepsBut own d' d'') : KeepsBut own d d'' :=
  ⟨fun hd => h'.valid (h.valid hd), Nat.le_trans h.size h'.size, fun c hc name hn =>
    (h'.table c (Nat.lt_of_lt_of_le hc h.size) name hn).trans (h.table c hc name hn)⟩

theorem KeepsBut.mono (h : KeepsBut own d d') (ho : ∀ name, own name → own' name) :
    KeepsBut own' d d' :=
  ⟨h.valid, h.size, fun c hc name hn => h.table c hc name fun h => hn (ho name h)⟩

theorem valid_new (plans : Sql.Query → Sql.Plan) : (new plans).Valid := by
  intro f hf
  cases hf

theorem valid_empty : empty.Valid := valid_new _

theorem Keeps.refl (d : Disk) : d.Keeps d := ⟨Nat.le_refl _, fun _ _ => rfl⟩

theorem Keeps.trans (h : d.Keeps d') (h' : d'.Keeps d'') : d.Keeps d'' :=
  ⟨Nat.le_trans h.size h'.size, fun c hc =>
    (h'.database c (Nat.lt_of_lt_of_le hc h.size)).trans (h.database c hc)⟩

theorem Keeps.keepsBut (h : d.Keeps d') (hv : d'.Valid) (own : String → Prop) :
    KeepsBut own d d' :=
  ⟨fun _ => hv, h.size, fun c hc name _ => by rw [h.database c hc]⟩

theorem Valid.databaseIn (hd : d.Valid) {file : DiskPath} (h : d.databaseIn file = some id) :
    id < d.databases.size := by
  obtain ⟨f, hf, rfl⟩ := Option.map_eq_some_iff.1 h
  exact hd f (List.mem_of_find?_eq_some hf)

/-- Opening a file creates a database at most. -/
theorem open?_spec (hd : d.Valid) (h : d.open? p = some (id, d')) :
    d'.Valid ∧ d.Keeps d' ∧ id < d'.databases.size := by
  obtain ⟨file, -, h⟩ := Option.map_eq_some_iff.1 h
  cases hin : d.databaseIn file with
  | some c =>
    rw [hin, Prod.mk.injEq] at h
    obtain ⟨rfl, rfl⟩ := h
    exact ⟨hd, .refl d, hd.databaseIn hin⟩
  | none =>
    rw [hin, Prod.mk.injEq] at h
    obtain ⟨rfl, rfl⟩ := h
    have hsize : (d.databases.push (.new d.plans)).size = d.databases.size + 1 := Array.size_push _
    refine ⟨fun f hf => ?_, ⟨?_, fun c hc => ?_⟩, ?_⟩
    · rw [hsize]
      rcases List.mem_cons.1 hf with rfl | hf
      · exact Nat.lt_succ_self _
      · exact Nat.lt_succ_of_lt (hd f hf)
    · rw [hsize]
      exact Nat.le_succ _
    · rw [database, database, Array.getElem?_push_lt hc, Array.getElem?_eq_getElem hc]
    · rw [hsize]
      exact Nat.lt_succ_self _

theorem databases_delete (d : Disk) (p : DiskPath) : (d.delete p).databases = d.databases := by
  rw [delete]
  split <;> rfl

theorem Valid.delete (hd : d.Valid) (p : DiskPath) : (d.delete p).Valid := by
  intro f hf
  rw [databases_delete]
  rw [Disk.delete] at hf
  split at hf
  · exact hd f (List.mem_filter.1 hf).1
  · exact hd f hf

theorem keeps_delete (d : Disk) (p : DiskPath) : d.Keeps (d.delete p) := by
  refine ⟨?_, fun c _ => ?_⟩
  · exact Nat.le_of_eq (congrArg Array.size (databases_delete d p).symm)
  · rw [database, database, databases_delete]

end Disk

/-- An operation on one table touches no table of another name. -/
theorem Mounted.Writes.keepsBut {m m' : Mounted} {name : String} (h : Writes name m m') :
    m.disk.KeepsBut (fun n => Sql.sameName n name = true) m'.disk where
  valid hd f hf := by
    rw [h.files] at hf
    rw [h.size]
    exact hd f hf
  size := Nat.le_of_eq h.size.symm
  table c _ n hn := by
    by_cases hc : m.store.connection = some c
    · exact (h.tables c hc).table n (by simpa using hn)
    · rw [h.elsewhere c hc]

namespace Store

variable {m : Mounted}

/-- A new store is open on the file that is asked for, or on a new one of its own. -/
theorem openAt_eq_ok {d : Disk} {path : Option DiskPath} (h : openAt d path = .ok m) :
    ∃ d₀ id, d₀.open? m.store.path = some (id, m.disk) ∧
      m.store = ⟨some id, m.store.path, path.isNone, 0, ⟨0, 0, 0⟩⟩ ∧
      (path = some m.store.path ∧ d₀ = d ∨ path = none ∧ (m.store.path, d₀) = d.temporary) := by
  unfold openAt at h
  cases path with
  | some p =>
    dsimp only at h
    split at h
    · rename_i id disk ho
      obtain rfl := Except.ok.inj h
      exact ⟨d, id, ho, rfl, .inl ⟨rfl, rfl⟩⟩
    · cases h
  | none =>
    dsimp only at h
    split at h
    · rename_i id disk ho
      obtain rfl := Except.ok.inj h
      exact ⟨d.temporary.2, id, ho, rfl, .inr ⟨rfl, rfl⟩⟩
    · cases h

/-- A new store has its database open. -/
theorem openAt_spec {d : Disk} (hd : d.Valid) {path : Option DiskPath}
    (h : openAt d path = .ok m) : m.disk.Valid ∧ m.Valid ∧ d.Keeps m.disk := by
  obtain ⟨d₀, id, ho, hs, hd₀⟩ := openAt_eq_ok h
  have hk : d₀.Valid ∧ d.Keeps d₀ := by
    obtain ⟨-, rfl⟩ | ⟨-, hd₀⟩ := hd₀
    · exact ⟨hd, .refl _⟩
    · rw [(Prod.mk.inj hd₀).2]
      exact ⟨hd, Nat.le_refl _, fun _ _ => rfl⟩
  obtain ⟨hv, hk', hlt⟩ := Disk.open?_spec hk.1 ho
  refine ⟨hv, fun c hc => ?_, hk.2.trans hk'⟩
  rw [hs] at hc
  exact Option.some.inj hc ▸ hlt

/-- A store that moves is at a new generation. -/
theorem setPath_ends (hd : m.disk.Valid) {path : DiskPath} {deleteOld : Bool} :
    Ends (setPath path deleteOld) m
      (fun _ m' => m'.disk.Valid ∧ m'.Valid ∧ m.disk.Keeps m'.disk ∧
        m'.store.generation = m.store.generation + 1)
      (fun _ m' => m' = m) := by
  rw [setPath, ends_bind, ends_get]
  cases ho : m.disk.open? path with
  | none => exact rfl
  | some r =>
    obtain ⟨hv, hk, hlt⟩ := Disk.open?_spec hd ho
    dsimp only
    rw [ends_bind, ends_set, ends_bind, release, ends_modify, ends_modify]
    refine ⟨?_, fun c hc => ?_, ?_, rfl⟩
    · dsimp only
      split
      · exact hv.delete _
      · exact hv
    · rw [← Option.some.inj hc]
      dsimp only
      split
      · rwa [Disk.databases_delete]
      · exact hlt
    · dsimp only
      split
      · exact hk.trans (Disk.keeps_delete _ _)
      · exact hk

/-- So is a store that closes. -/
theorem close_ends (hd : m.disk.Valid) {delete : Bool} :
    Ends (close delete) m
      (fun _ m' => m'.disk.Valid ∧ m'.Valid ∧ m.disk.Keeps m'.disk ∧
        m'.store.generation = m.store.generation + 1)
      (fun _ m' => m' = m) := by
  rw [close, ends_bind, ends_get, ends_bind, release, ends_modify, ends_modify]
  refine ⟨?_, fun c hc => (by cases hc), ?_, rfl⟩
  · dsimp only
    split
    · exact hd.delete _
    · exact hd
  · dsimp only
    split
    · exact Disk.keeps_delete _ _
    · exact .refl _

end Store
end LazyQuery
