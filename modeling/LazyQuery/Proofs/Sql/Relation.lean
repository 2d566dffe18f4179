import LazyQuery.Proofs.Sql.Affinity
import LazyQuery.Proofs.Store.Tables
import Mathlib.Data.List.Basic

/-!
# Relations that hold tables

A relation *holds* a table with a schema if it has a column for each field, of an affinity that suits
the type, and its rows are those of the table as they are stored.

* `Scope.Shows table s k` says that the columns of a schema are in scope under the name of a table,
  from the position `k` on, and `RowShows` that a row has the given cells there.
* `shows_ofNumbered` and `shows_join` say what is in scope in a query of one table or of two.
-/

set_option autoImplicit false

namespace LazyQuery

open Sql

/-- No two names of the schema are the same to a query. -/
def Schema.Apart (s : Schema) : Prop := s.names.Pairwise fun a b => sameName a b = false

theorem Schema.Apart.nodup {s : Schema} (h : s.Apart) : s.names.Nodup :=
  h.imp fun {a b} hab e => by
    rw [e, sameName_self] at hab
    cases hab

/-- The fields of a schema stand under their names. -/
theorem Schema.exists_index {s : Schema} {name : String} {f : Field} (h : s.field? name = some f) :
    ∃ j : Nat, s.fields[j]? = some f := by
  obtain ⟨j, hj, rfl⟩ := List.getElem_of_mem (Schema.mem_of_field? h)
  exact ⟨j, List.getElem?_eq_getElem hj⟩

namespace Sql

/-- The heading of a column for a field. -/
structure Heading.Fits (h : Heading) (f : Field) : Prop where
  name : h.name = f.name
  suits : h.affinity.suits f.type = true
  computed : h.isRefused = false

/-- The stored values of a row of a table. -/
def storedRow (t : Table) (i : Nat) : List Datum := (t.row i).map Datum.ofScalar

/-- The relation has the columns of the schema and the rows of the table. -/
structure Relation.Holds (r : Relation) (t : Table) (s : Schema) : Prop where
  headings : List.Forall₂ Heading.Fits r.columns s.fields
  rows : r.toDelivery = .ofRows ((List.range t.rowCount).map (storedRow t))
  numbers : ∀ ns, r.numbers? = some ns → ns.length = t.rowCount

/-! ## What is in scope -/

/-- The columns of a schema are in scope under the name of a table, from a position on. -/
def Scope.Shows (scope : Scope) (table : String) (s : Schema) (k : Nat) : Prop :=
  ∀ (j : Nat) (f : Field), s.fields[j]? = some f →
    scope.index? table f.name = some (k + j) ∧ ∃ b, scope[k + j]? = some b ∧ b.heading.Fits f

/-- From a position on, a row has the given cells for the fields of a schema. -/
def RowShows (row : List Datum) (s : Schema) (k : Nat) (cell : String → Scalar) : Prop :=
  ∀ (j : Nat) (f : Field), s.fields[j]? = some f → row[k + j]? = some (Datum.ofScalar (cell f.name))

variable {s s' : Schema} {table : String} {r r' : Relation} {t : Table}

/-- What stands between two other parts of a list. -/
theorem getElem?_middle {α : Type} (front back : List α) {block : List α} {j : Nat}
    (h : j < block.length) : (front ++ block ++ back)[front.length + j]? = block[j]? := by
  rw [List.append_assoc, List.getElem?_append_right (Nat.le_add_right _ _), Nat.add_sub_cancel_left,
    List.getElem?_append_left h]

/-- The binding of a column that has a name in a table. -/
def Binding.IsNamed (table : String) (b : Binding) (name : String) : Prop :=
  b.table = table ∧ b.isNumber = false ∧ b.heading.name = name

/-- A table's columns are found by their names behind those of tables of other names. -/
theorem index?_append (table : String) (front back : Scope) {block : Scope} {names : List String}
    (hf : ∀ b ∈ front, sameName b.table table = false)
    (hb : List.Forall₂ (Binding.IsNamed table) block names)
    (hn : names.Pairwise fun a b => sameName a b = false) {j : Nat} (hj : j < names.length) :
    (front ++ block ++ back).index? table names[j] = some (front.length + j) := by
  have named : ∀ i (hi : i < block.length) (hi' : i < names.length),
      Binding.IsNamed table block[i] names[i] := fun i hi hi' => hb.get hi hi'
  have hj' : j < block.length := hb.length_eq ▸ hj
  have inBlock : block.findIdx? (fun b => !b.isNumber && sameName b.table table &&
      sameName b.heading.name names[j]) = some j := by
    rw [List.findIdx?_eq_some_iff_getElem]
    refine ⟨hj', ?_, fun i hi => ?_⟩
    · obtain ⟨htable, hnumber, hname⟩ := named j hj' hj
      simp [htable, hnumber, hname]
    · have hi' := Nat.lt_trans hi hj
      obtain ⟨htable, hnumber, hname⟩ := named i (Nat.lt_trans hi hj') hi'
      simp [hname, List.pairwise_iff_getElem.1 hn i j hi' hj hi]
  have inFront : front.findIdx? (fun b => !b.isNumber && sameName b.table table &&
      sameName b.heading.name names[j]) = none := by
    rw [List.findIdx?_eq_none_iff]
    intro b hb
    simp [hf b hb]
  rw [Scope.index?, Scope.indexWhere?, List.append_assoc, List.findIdx?_append, inFront,
    List.findIdx?_append, inBlock]
  simp [Nat.add_comm]

/-- The bindings of one table's columns. -/
def Binding.IsOf (table : String) (b : Binding) (f : Field) : Prop :=
  b.table = table ∧ b.isNumber = false ∧ b.heading.Fits f

/-- A table's columns are found behind those of tables of other names. -/
theorem shows_append (table : String) (front back : Scope) {block : Scope}
    (hf : ∀ b ∈ front, sameName b.table table = false)
    (hb : List.Forall₂ (Binding.IsOf table) block s.fields) (hs : s.Apart) :
    Scope.Shows (front ++ block ++ back) table s front.length := by
  intro j f hj
  obtain ⟨hlt, rfl⟩ := List.getElem?_eq_some_iff.1 hj
  have hlt' : j < block.length := hb.length_eq ▸ hlt
  have hnamed : List.Forall₂ (Binding.IsNamed table) block s.names := by
    rw [Schema.names, List.forall₂_map_right_iff]
    exact hb.imp fun _ _ h => ⟨h.1, h.2.1, h.2.2.name⟩
  have hindex := index?_append table front back hf hnamed hs (j := j)
    (by simpa [Schema.names] using hlt)
  refine ⟨by simpa [Schema.names] using hindex, block[j], ?_, (hb.get hlt' hlt).2.2⟩
  rw [getElem?_middle front back hlt', List.getElem?_eq_getElem hlt']

theorem isOf_ofRelation (h : List.Forall₂ Heading.Fits r.columns s.fields) :
    List.Forall₂ (Binding.IsOf table) (Scope.ofRelation table r) s.fields := by
  rw [Scope.ofRelation, List.forall₂_map_left_iff]
  exact h.imp fun _ _ hf => ⟨rfl, rfl, hf⟩

/-- What a query of one table has in scope. -/
theorem shows_ofNumbered (table : String) (h : List.Forall₂ Heading.Fits r.columns s.fields)
    (hs : s.Apart) : (Scope.ofNumbered table r).Shows table s 0 :=
  shows_append table [] _ (by simp) (isOf_ofRelation h) hs

/-- What a join of two tables has in scope. -/
theorem shows_join {table' : String} (h : List.Forall₂ Heading.Fits r.columns s.fields)
    (h' : List.Forall₂ Heading.Fits r'.columns s'.fields) (hs : s.Apart) (hs' : s'.Apart)
    (hne : sameName table table' = false) :
    (Scope.ofRelation table r ++ Scope.ofRelation table' r').Shows table s 0 ∧
      (Scope.ofRelation table r ++ Scope.ofRelation table' r').Shows table' s' s.fields.length := by
  constructor
  · exact shows_append table [] _ (by simp) (isOf_ofRelation h) hs
  · have hlen : (Scope.ofRelation table r).length = s.fields.length := by
      rw [Scope.ofRelation, List.length_map, h.length_eq]
    have hshows := shows_append table' (Scope.ofRelation table r) []
      (fun b hb => by
        obtain ⟨c, -, rfl⟩ := List.mem_map.1 hb
        exact hne) (isOf_ofRelation h') hs'
    rw [List.append_nil, hlen] at hshows
    exact hshows

namespace Scope.Shows

variable {scope : Scope} {k : Nat} {name : String} {f : Field}

/-- A column of the schema is found, as a value can be had of it. -/
theorem column (h : scope.Shows table s k) (hf : s.field? name = some f) :
    ∃ j b, s.fields[j]? = some f ∧ scope.index? table name = some (k + j) ∧
      scope[k + j]? = some b ∧ b.heading.Fits f := by
  obtain ⟨j, hj⟩ := Schema.exists_index hf
  obtain ⟨hindex, b, hb, hfits⟩ := h j f hj
  exact ⟨j, b, hj, Schema.field?_name hf ▸ hindex, hb, hfits⟩

end Scope.Shows

/-! ## Rows -/

theorem rowShows_append (front back : List Datum) (cell : String → Scalar) :
    RowShows (front ++ s.names.map (fun n => Datum.ofScalar (cell n)) ++ back) s front.length cell := by
  intro j f hj
  have hlt := (List.getElem?_eq_some_iff.1 hj).1
  rw [getElem?_middle front back (by simpa [Schema.names] using hlt)]
  simp [Schema.names, hj]

theorem storedRow_eq (ht : t.Conforms s) (hn : s.names.Nodup) (i : Nat) :
    storedRow t i = s.names.map fun n => Datum.ofScalar (t.cell n i) := by
  rw [storedRow, ht.row_eq hn, List.map_map]
  rfl

theorem rowShows_storedRow (ht : t.Conforms s) (hn : s.names.Nodup) (back : List Datum) (i : Nat) :
    RowShows (storedRow t i ++ back) s 0 (t.cell · i) := by
  rw [storedRow_eq ht hn]
  exact rowShows_append [] _ _

/-- The rows of a relation with their numbers. -/
theorem Relation.Holds.numberedRows (h : r.Holds t s) : ∃ back : Nat → List Datum,
    r.numberedRows = .ofRows ((List.range t.rowCount).map fun i => storedRow t i ++ back i) := by
  rw [Relation.numberedRows]
  cases hn : r.numbers? with
  | none => exact ⟨fun _ => [], by simp [h.rows]⟩
  | some ns =>
    refine ⟨fun i => [.integer (ns.getD i 0)], ?_⟩
    have hlen := h.numbers ns hn
    dsimp only
    rw [h.rows]
    refine congrArg Delivery.ofRows (List.ext_getElem (by simp [Delivery.ofRows, hlen]) fun i hi _ => ?_)
    have hi : i < ns.length := by simpa [Delivery.ofRows, hlen] using hi
    simp [Delivery.ofRows, List.getElem?_eq_getElem hi]

end Sql
end LazyQuery
