import LazyQuery.Proofs.Store.Operations

/-!
# When tables can be made

A table can be loaded just if the open database takes one of its name (`Mounted.Takes`) and its columns
can be declared (`Schema.IsCreatable`); then nothing in between can fail (`Store.bulkLoad_ok_iff`). A table
is created from a query if moreover the query is accepted and has a result (`Store.createTableAs_ok`).
-/

set_option autoImplicit false

namespace LazyQuery

open Sql

/-- Columns that a new table can be declared with: there are some, not too many, they are told apart,
and no name is cut off. -/
structure Schema.IsCreatable (s : Schema) : Prop where
  nonempty : s.fields ≠ []
  room : s.fields.length ≤ columnRoom
  apart : Database.repeatsName s.names = false
  whole : Database.cutsOff s.names = false

namespace Database

variable {db : Database} {name : String} {s : Schema}

theorem repeatsName_eq_false {names : List String} : repeatsName names = false ↔
    names.Pairwise fun a b => sameName a b = false := by
  induction names with
  | nil => simp [repeatsName]
  | cons n rest ih =>
    rw [repeatsName, Bool.or_eq_false_iff, List.any_eq_false, ih, List.pairwise_cons]
    simp only [Bool.not_eq_true]

/-- The database does not keep the name for itself, and a statement can hold it. -/
structure IsAllowed (name : String) : Prop where
  unreserved : isReserved name = false
  notBuiltIn : isBuiltIn name = false
  whole : cutsOff [name] = false

theorem isFree_iff : db.isFree name = true ↔ IsAllowed name ∧ db.table? name = none := by
  simp only [isFree, Bool.and_eq_true, Bool.not_eq_true', Option.isNone_iff_eq_none]
  constructor
  · rintro ⟨⟨⟨hreserved, hbuiltIn⟩, hwhole⟩, hnone⟩
    exact ⟨⟨hreserved, hbuiltIn, hwhole⟩, hnone⟩
  · rintro ⟨⟨hreserved, hbuiltIn, hwhole⟩, hnone⟩
    exact ⟨⟨⟨hreserved, hbuiltIn⟩, hwhole⟩, hnone⟩

theorem createTable?_isSome_iff :
    (∃ db', db.createTable? name s = some db') ↔ s.IsCreatable ∧ db.isFree name = true := by
  rw [createTable?]
  split
  · rename_i h
    simp only [Bool.or_eq_true, decide_eq_true_eq, Bool.not_eq_true', List.isEmpty_iff] at h
    refine iff_of_false (by simp) ?_
    rintro ⟨hs, hfree⟩
    obtain (((h | h) | h) | h) | h := h
    · exact hs.nonempty h
    · exact Nat.not_lt.2 hs.room h
    · exact Bool.false_ne_true (hs.apart.symm.trans h)
    · exact Bool.false_ne_true (hs.whole.symm.trans h)
    · exact Bool.false_ne_true (h.symm.trans hfree)
  · rename_i h
    simp only [Bool.or_eq_true, not_or, decide_eq_true_eq, Bool.not_eq_true, Bool.not_eq_false',
      List.isEmpty_eq_false_iff, Nat.not_lt] at h
    exact iff_of_true ⟨_, rfl⟩ ⟨⟨h.1.1.1.1, h.1.1.1.2, h.1.1.2, h.1.2⟩, h.2⟩

/-- A listing has a name that the database keeps for itself. -/
theorem IsAllowed.isListingName (h : IsAllowed name) : isListingName name = false := by
  have reserved {n : String} (hn : isReserved n = true) (hs : sameName name n = true) : False := by
    have hr := h.unreserved
    rw [isReserved, sameName_iff.1 hs] at hr
    exact Bool.false_ne_true (hr.symm.trans hn)
  rw [Database.isListingName, Bool.or_eq_false_iff, List.any_eq_false, List.any_eq_false]
  exact ⟨fun n hn => reserved (List.all_eq_true.1 (by decide) n hn),
    fun n hn => reserved (List.all_eq_true.1 (by decide) n hn)⟩

end Database

namespace Mounted

variable {m m' : Mounted} {name : String}

/-- The store is open on a database that can be changed, and that can have a table of the name. -/
structure Takes (m : Mounted) (name : String) : Prop where
  isOpen : m.store.connection.isSome = true
  writable : m.isReadOnly = false
  allowed : Database.IsAllowed name

theorem Writes.takes_iff (h : Writes name m m') : m'.Takes name ↔ m.Takes name := by
  constructor
  · rintro ⟨ho, hw, ha⟩
    exact ⟨h.connection ▸ ho, h.isReadOnly_eq ▸ hw, ha⟩
  · rintro ⟨ho, hw, ha⟩
    exact ⟨h.connection.symm ▸ ho, h.isReadOnly_eq.symm ▸ hw, ha⟩

end Mounted

namespace Store

variable {m : Mounted} {name : String} {t : Table} {s : Schema}

/-- A change that there is can be made where changes can. -/
theorem change_ok (name : String) (hv : m.Valid) (ho : m.store.connection.isSome = true)
    (hr : m.isReadOnly = false) {f : Database → Option Database}
    (hf : ∀ db db', f db = some db' → Database.AgreesBut name db db')
    (hsome : ∀ c, m.store.connection = some c → ∃ db', f (m.disk.database c) = some db') :
    Ends (change f) m (fun _ m' => m.Writes name m' ∧
      ∀ c, m.store.connection = some c → f (m.disk.database c) = some (m'.disk.database c))
      fun _ _ => False := by
  refine (change_ends name hv hf).mono (fun _ m' h => ⟨h.1, h.2.2⟩) ?_
  rintro e m' ⟨-, -, hro | hnone⟩
  · exact Bool.false_ne_true (hr.symm.trans hro)
  · obtain ⟨c, hc⟩ := Option.isSome_iff_exists.1 ho
    obtain ⟨db', hdb⟩ := hsome c hc
    cases (hnone c hc).symm.trans hdb

/-- A table can be dropped where one can be made. -/
theorem dropTable_ok (hv : m.Valid) (ht : m.Takes name) : Ends (dropTable name) m
    (fun _ m' => m.Writes name m' ∧ m'.table? name = none) fun _ _ => False := by
  have hnever : Ends (dropTable name) m (fun _ _ => True) fun _ _ => False := by
    obtain ⟨c, hc⟩ := Option.isSome_iff_exists.1 ht.isOpen
    rw [dropTable, ends_bind, ends_reading, hc]
    dsimp only
    refine Ends.ite (fun hcut => ?_) fun _ => Ends.ite (fun _ => ?_) fun _ => trivial
    · exact Bool.false_ne_true (ht.allowed.whole.symm.trans hcut)
    · refine (change_ok name hv ht.isOpen ht.writable (f := fun db => some (db.dropTable name))
        (fun db db' h => ?_) fun _ _ => ⟨_, rfl⟩).mono (fun _ _ _ => trivial) fun _ _ h => h
      cases h
      exact Database.dropTable_agrees _ _
  exact ((dropTable_ends hv).and hnever).mono (fun _ _ h => ⟨h.1.1, h.1.2.1⟩) fun _ _ h => h.2

/-! ## Tables that are loaded -/

/-- A table that is loaded has been declared. -/
theorem isCreatable_of_bulkLoad {m' : Mounted} (h : bulkLoad name t s m = .ok ⟨⟩ m') :
    s.IsCreatable ∧ Database.IsAllowed name := by
  rw [bulkLoad] at h
  obtain ⟨_, _, -, h⟩ := run_bind_eq_ok.1 h
  obtain ⟨_, _, -, h⟩ := run_bind_eq_ok.1 h
  obtain ⟨_, _, h, -⟩ := run_bind_eq_ok.1 h
  obtain ⟨c, _, -, h⟩ := run_bind_eq_ok.1 h
  obtain ⟨m, _, -, h⟩ := run_bind_eq_ok.1 h
  dsimp only at h
  cases hdb : (m.disk.database c).createTable? name s with
  | none =>
    rw [hdb] at h
    cases h
  | some db =>
    obtain ⟨hs, hfree⟩ := Database.createTable?_isSome_iff.1 ⟨db, hdb⟩
    exact ⟨hs, (Database.isFree_iff.1 hfree).1⟩

/-- Nothing can be loaded into a store that is closed, or whose database cannot be changed. -/
theorem takes_of_bulkLoad {m' : Mounted} (hv : m.Valid) (h : bulkLoad name t s m = .ok ⟨⟩ m') :
    m.Takes name := by
  have hopen : Ends (bulkLoad name t s) m
      (fun _ _ => m.store.connection.isSome = true ∧ m.isReadOnly = false) fun _ _ => True := by
    rw [bulkLoad, ends_bind, ends_connected]
    cases hc : m.store.connection with
    | none => trivial
    | some c =>
      dsimp only
      refine (dropTable_ends hv).andThen ?_ fun _ _ _ => trivial
      rintro - m₁ ⟨hw, -, -⟩
      refine (change_ends name (hw.valid hv) fun db db' h =>
        (Database.table?_createTable? h).1).andThen ?_ fun _ _ _ => trivial
      rintro - m₂ ⟨-, hro, -⟩
      exact ends_trivial.mono (fun _ _ _ => ⟨rfl, hw.isReadOnly_eq ▸ hro⟩) fun _ _ _ => trivial
  obtain ⟨ho, hr⟩ := hopen.of_ok h
  exact ⟨ho, hr, (isCreatable_of_bulkLoad h).2⟩

/-- Where there can be a table of the name, one that can be declared is loaded. -/
theorem bulkLoad_ok (hv : m.Valid) (hw : t.columns.length = s.fields.length) (ht : m.Takes name)
    (hs : s.IsCreatable) : ∃ m', bulkLoad name t s m = .ok ⟨⟩ m' := by
  obtain ⟨c, hc⟩ := Option.isSome_iff_exists.1 ht.isOpen
  have h : Ends (bulkLoad name t s) m (fun _ _ => True) fun _ _ => False := by
    rw [bulkLoad, ends_bind, ends_connected, hc]
    dsimp only
    refine (dropTable_ok hv ht).andThen ?_ fun _ _ h => h
    rintro - m₁ ⟨hw₁, hnone⟩
    have hc₁ : m₁.store.connection = some c := hw₁.connection.trans hc
    have ht₁ := hw₁.takes_iff.2 ht
    refine (change_ok name (hw₁.valid hv) ht₁.isOpen ht₁.writable (fun db db' h =>
      (Database.table?_createTable? h).1) fun c' hc' => ?_).andThen ?_ fun _ _ h => h
    · rw [Mounted.table?_eq hc'] at hnone
      exact Database.createTable?_isSome_iff.2 ⟨hs, Database.isFree_iff.2 ⟨ht.allowed, hnone⟩⟩
    · rintro - m₂ ⟨hw₂, hdb⟩
      have hc₂ : m₂.store.connection = some c := hw₂.connection.trans hc₁
      have ht₂ := hw₂.takes_iff.2 ht₁
      obtain ⟨-, -, entry, hnew⟩ := Database.table?_createTable? (hdb c hc₁)
      have hwidth : (m₂.disk.database c).width? name = some t.columns.length := by
        rw [Database.width?, hnew, Option.map_some, List.length_map, hw]
      rw [ends_bind, ends_reading, hc₂]
      dsimp only
      rw [hwidth]
      refine Ends.ite (fun h => absurd rfl (bne_iff_ne.1 h)) fun _ => Ends.ite (fun _ => ?_) fun _ => trivial
      refine (change_ok name (hw₂.valid (hw₁.valid hv)) ht₂.isOpen ht₂.writable
        (f := fun db => some (db.insertRows name _)) (fun db db' h => ?_) fun _ _ => ⟨_, rfl⟩).andThen
          (fun _ _ _ => trivial) fun _ _ h => h
      cases h
      exact Database.insertRows_agrees _ _
  obtain ⟨⟨⟩, m', hm', -⟩ := h.exists_ok
  exact ⟨m', hm'⟩

/-- **A table is loaded** just if there can be one of its name and its columns can be declared. -/
theorem bulkLoad_ok_iff (hv : m.Valid) (hw : t.columns.length = s.fields.length) :
    (∃ m', bulkLoad name t s m = .ok ⟨⟩ m') ↔ m.Takes name ∧ s.IsCreatable := by
  constructor
  · rintro ⟨m', h⟩
    exact ⟨takes_of_bulkLoad hv h, (isCreatable_of_bulkLoad h).1⟩
  · rintro ⟨ht, hs⟩
    exact bulkLoad_ok hv hw ht hs

/-! ## Tables that are created from queries -/

/-- **A table is created from a query** if there can be one of its name, the query is accepted, and it
reads what is there and has a result once any table of the name is gone. -/
theorem createTableAs_ok {q : Query} (hv : m.Valid) (ht : m.Takes name)
    (hq : q.isAccepted Query.belowCreateTable = true)
    (hres : ∀ c db, m.store.connection = some c → Database.AgreesBut name (m.disk.database c) db →
      db.table? name = none → db.knowsSources q = true ∧ (db.resultOf? q).isSome = true) :
    ∃ m', createTableAs name q m = .ok ⟨⟩ m' := by
  obtain ⟨c, hc⟩ := Option.isSome_iff_exists.1 ht.isOpen
  have h : Ends (createTableAs name q) m (fun _ _ => True) fun _ _ => False := by
    rw [createTableAs, ends_bind, ends_connected, hc]
    dsimp only
    refine (dropTable_ok hv ht).andThen ?_ fun _ _ h => h
    rintro - m₁ ⟨hw, hnone⟩
    have hc₁ : m₁.store.connection = some c := hw.connection.trans hc
    have ht₁ := hw.takes_iff.2 ht
    rw [Mounted.table?_eq hc₁] at hnone
    obtain ⟨hknown, hresult⟩ := hres c _ hc (hw.tables c hc) hnone
    obtain ⟨content, hcontent⟩ := Option.isSome_iff_exists.1 hresult
    rw [ends_bind, ends_reading, hc₁]
    dsimp only
    refine Ends.ite (fun _ => ?_) fun hk => absurd hknown hk
    refine (change_ok name (hw.valid hv) ht₁.isOpen ht₁.writable (fun db db' h =>
      (Database.table?_createTableAs? h).1) fun c' hc' => ?_).andThen (fun _ _ _ => trivial) fun _ _ h => h
    obtain rfl := Option.some.inj (hc₁.symm.trans hc')
    exact Database.createTableAs?_isSome hq (Database.isFree_iff.2 ⟨ht.allowed, hnone⟩) hcontent
  obtain ⟨⟨⟩, m', hm', -⟩ := h.exists_ok
  exact ⟨m', hm'⟩

end Store
end LazyQuery
