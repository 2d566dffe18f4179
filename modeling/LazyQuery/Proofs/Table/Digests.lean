import LazyQuery.Proofs.Scalar.Equality
import LazyQuery.Proofs.Table.Rows

/-!
# Digests of rows

The digest of a row says which classes it falls into when rows are grouped and which rows it is joined
with. Two things are to be known of digests.

* `digest_eq_iff_columns`: a digest over several columns is that of each of them, one by one. No cell can
  give bytes to the next one.
* `digest_eq_iff_compare`: over one column, rows have the same digest if their cells are equal in a
  comparison, but for the numbers in discord.
-/

set_option autoImplicit false

namespace LazyQuery.Table

open Scalar (Discord)
open scoped Numbers

/-- The texts and the blobs of the table have lengths that fit in a word. -/
def Sized (t : Table) : Prop := ∀ c ∈ t.columns, ∀ v ∈ c.values, v.isSized = true

/-- The digest of a row over some columns. -/
def HasDigest (t : Table) (names : List String) (i : Nat) (d : Key) : Prop :=
  ∃ digests, t.rowDigests names = .ok digests ∧ digests[i]? = some d

/-- The key of a row for matching, if it has one. -/
def HasKey (t : Table) (names : List String) (i : Nat) (key : Option Key) : Prop :=
  ∃ keys, t.rowKeys names = .ok keys ∧ keys[i]? = some key

variable {t u : Table} {names names' : List String} {i j : Nat}

theorem Sized.cell (h : t.Sized) (n : String) (i : Nat) : (t.cell n i).isSized = true := by
  rw [Table.cell]
  cases hc : t.column? n with
  | none => rfl
  | some c =>
    change (c.values.getD i .null).isSized = true
    rw [List.getD_eq_getElem?_getD]
    cases hi : c.values[i]? with
    | none => rfl
    | some v => exact h c (List.mem_of_find?_eq_some hc) v (List.mem_of_getElem? hi)

theorem hasDigest (hn : ∀ n ∈ names, n ∈ t.names) (hi : i < t.rowCount) :
    t.HasDigest names i (Scalar.keyOf (names.map fun n => t.cell n i)) :=
  ⟨_, rowDigests_ok hn, by simp [hi]⟩

theorem hasKey (hn : ∀ n ∈ names, n ∈ t.names) (hi : i < t.rowCount) :
    t.HasKey names i (t.keyAt names i) :=
  ⟨_, rowKeys_ok hn, by simp [hi]⟩

theorem HasDigest.unique {d e : Key} (hd : t.HasDigest names i d) (he : t.HasDigest names i e) :
    d = e := by
  obtain ⟨ds, hds, hd⟩ := hd
  obtain ⟨es, hes, he⟩ := he
  obtain rfl := Except.ok.inj (hds.symm.trans hes)
  exact Option.some.inj (hd.symm.trans he)

theorem hasDigest_single {n : String} (hn : n ∈ t.names) (hi : i < t.rowCount) :
    t.HasDigest [n] i (t.cell n i).frame := by
  have h := hasDigest (List.forall_mem_singleton.2 hn) hi
  rwa [List.map_singleton, Scalar.keyOf_singleton] at h

/-- Two rows have one digest over a column of each if the cells have one frame. -/
theorem sameDigest_iff {n n' : String} (hn : n ∈ t.names) (hn' : n' ∈ u.names) (hi : i < t.rowCount)
    (hj : j < u.rowCount) : (∃ d, t.HasDigest [n] i d ∧ u.HasDigest [n'] j d) ↔
      (t.cell n i).frame = (u.cell n' j).frame := by
  have hd := hasDigest_single hn hi
  have he := hasDigest_single hn' hj
  constructor
  · rintro ⟨d, hd', he'⟩
    exact (hd.unique hd').trans (he'.unique he)
  · intro h
    exact ⟨_, hd, h ▸ he⟩

/-- A row without a missing key cell has its digest as its key. -/
theorem keyAt_eq (t : Table) (names : List String) (i : Nat) :
    (t.keyAt names i = none ↔ ∃ n ∈ names, t.cell n i = .null) ∧ (t.keyAt names i ≠ none →
      t.keyAt names i = some (Scalar.keyOf (names.map fun n => t.cell n i))) := by
  have hnull : (names.map fun n => t.cell n i).any Scalar.isNull = true ↔
      ∃ n ∈ names, t.cell n i = .null := by
    rw [List.any_map, List.any_eq_true]
    refine exists_congr fun n => and_congr_right fun _ => ?_
    cases h : t.cell n i <;> simp [h, Scalar.isNull]
  rw [← hnull, keyAt]
  cases (names.map fun n => t.cell n i).any Scalar.isNull with
  | true => exact ⟨iff_of_true rfl rfl, fun h => absurd rfl h⟩
  | false => exact ⟨iff_of_false nofun nofun, fun _ => rfl⟩

/-- **A digest over several columns says no more and no less than those over each of them**: two rows,
of one table or of two, have the same digest if they have the same one over each pair of columns. The
digest of a row is also its key, unless one of the key cells is missing. -/
theorem digest_eq_iff_columns (hlen : names.length = names'.length) (hn : ∀ n ∈ names, n ∈ t.names)
    (hn' : ∀ n ∈ names', n ∈ u.names) (ht : t.Sized) (hu : u.Sized) (hi : i < t.rowCount)
    (hj : j < u.rowCount) : ∃ d e key, t.HasDigest names i d ∧ u.HasDigest names' j e ∧
      (d = e ↔ List.Forall₂ (fun n n' => ∃ c, t.HasDigest [n] i c ∧ u.HasDigest [n'] j c)
        names names') ∧
      t.HasKey names i key ∧ (key = none ↔ ∃ n ∈ names, t.cell n i = .null) ∧
        (key ≠ none → key = some d) := by
  obtain ⟨hmissing, hpresent⟩ := keyAt_eq t names i
  refine ⟨_, _, _, hasDigest hn hi, hasDigest hn' hj, ?_, hasKey hn hi, hmissing, hpresent⟩
  rw [Scalar.keyOf_eq_iff_frames (List.forall_mem_map.2 fun n _ => ht.cell n i)
    (List.forall_mem_map.2 fun n _ => hu.cell n j) (by simpa using hlen), List.forall₂_map_left_iff,
    List.forall₂_map_right_iff, List.forall₂_iff_zip, List.forall₂_iff_zip]
  refine and_congr_right fun _ => forall₃_congr fun n n' hzip => ?_
  obtain ⟨hmem, hmem'⟩ := List.of_mem_zip hzip
  exact (sameDigest_iff (hn n hmem) (hn' n' hmem') hi hj).symm

/-- Two rows whose texts are the same, one after the other, but not cell by cell. -/
theorem digest_eq_iff_columns_shifted :
    let t : Table := ⟨[⟨"a", [.text "ab"]⟩, ⟨"b", [.text "c"]⟩]⟩
    let u : Table := ⟨[⟨"a", [.text "a"]⟩, ⟨"b", [.text "bc"]⟩]⟩
    ∃ d e, t.HasDigest ["a", "b"] 0 d ∧ u.HasDigest ["a", "b"] 0 e ∧ d ≠ e ∧
      t.HasKey ["a", "b"] 0 (some d) := by
  intro t u
  obtain ⟨d, e, key, hd, he, hiff, hkey, hmissing, hpresent⟩ :=
    digest_eq_iff_columns (t := t) (u := u) (i := 0) (j := 0)
      (show ["a", "b"].length = ["a", "b"].length from rfl) (by decide) (by decide)
      (by unfold Sized; decide +kernel) (by unfold Sized; decide +kernel) (by decide) (by decide)
  refine ⟨d, e, hd, he, fun h => ?_, ?_⟩
  · obtain ⟨hfirst, -⟩ := List.forall₂_cons.1 (hiff.1 h)
    exact absurd ((sameDigest_iff (by decide) (by decide) (by decide) (by decide)).1 hfirst)
      (by decide +kernel)
  · rwa [hpresent fun h => absurd (hmissing.1 h) (by decide)] at hkey

/-- **Over one column, two rows have the same digest if their cells are equal in a comparison**, for all
cells but missing ones and numbers in discord. The rows have their digests as keys. -/
theorem digest_eq_iff_compare {n n' : String} (hn : n ∈ t.names) (hn' : n' ∈ u.names) (ht : t.Sized)
    (hu : u.Sized) (hi : i < t.rowCount) (hj : j < u.rowCount) (hnull : (t.cell n i).isNull = false)
    (hnull' : (u.cell n' j).isNull = false) :
    ∃ d e, t.HasDigest [n] i d ∧ t.HasKey [n] i (some d) ∧ u.HasDigest [n'] j e ∧
      u.HasKey [n'] j (some e) ∧
      ((d = e ↔ (t.cell n i).compare (u.cell n' j) = .eq) ↔ ¬ Discord (t.cell n i) (u.cell n' j)) := by
  have keyed {t : Table} {n : String} {i : Nat} (hn : n ∈ t.names) (hi : i < t.rowCount)
      (hnull : (t.cell n i).isNull = false) : t.HasKey [n] i (some (t.cell n i).frame) := by
    have h := hasKey (List.forall_mem_singleton.2 hn) hi
    rw [keyAt, List.map_singleton, Scalar.keyOf_singleton] at h
    simpa [hnull] using h
  exact ⟨_, _, hasDigest_single hn hi, keyed hn hi hnull, hasDigest_single hn' hj, keyed hn' hj hnull',
    Scalar.frame_eq_iff_compare (ht.cell n i) (hu.cell n' j) hnull hnull'⟩

/-- One half and the integer of its word have the same digest, and are not equal in a comparison. -/
theorem digest_eq_iff_compare_half :
    let t : Table := ⟨[⟨"k", [.float ⟨0x3FE0000000000000⟩, .int 4602678819172646912]⟩]⟩
    (t.cell "k" 0).compare (t.cell "k" 1) ≠ .eq ∧ ∃ d, t.HasDigest ["k"] 0 d ∧ t.HasDigest ["k"] 1 d := by
  intro t
  have hne : (t.cell "k" 0).compare (t.cell "k" 1) ≠ .eq := by decide
  have hdiscord : Discord (t.cell "k" 0) (t.cell "k" 1) :=
    .symm (.misframed (.word (i := 4602678819172646912) rfl (by decide) (by decide)))
  obtain ⟨d, e, hd, -, he, -, hiff⟩ := digest_eq_iff_compare (t := t) (u := t) (n := "k") (i := 0)
    (j := 1) (List.mem_singleton_self "k") (List.mem_singleton_self "k")
    (by unfold Sized; decide) (by unfold Sized; decide +kernel) (by decide) (by decide)
    (by decide) (by decide)
  have heq : d = e := by
    by_contra h
    exact (mt hiff.1 (not_not_intro hdiscord)) (iff_of_false h hne)
  exact ⟨hne, d, hd, heq ▸ he⟩

end LazyQuery.Table
