import LazyQuery.Proofs.Table.Conforms
import LazyQuery.Proofs.Table.Level

/-!
# Places that are read

The operations on tables read cells by the number of their row, and columns by their place. A `Checked`
computation looks before it reads (`place`): where there is nothing it stops, other than by a refusal. It
*mirrors* a computation that does not look if it is refused for the same reason or has an answer that goes
with the other one's. So a checked computation that mirrors another one never stops at a place that is not
there, and the other one never reads there.

Where a sort may give up, there is nothing to mirror: such a computation is *in range* if it does not stop at
a place that is not there, and has an answer only as it should be.

* `Mirrors.bind`, `Mirrors.mapM`, `InRange.bind` and so on follow the form of the computations.
* `take_eq` is about chosen rows, `rowDigests_mirrors` and `rowKeys_mirrors` about the keys of rows: of a
  level table nothing is read that is not there.
-/

set_option autoImplicit false

namespace LazyQuery

/-- Why a checked computation stops: it is refused, there is nothing at the place that it reads, or a sort
gives up. -/
inductive Stop
  | refused (e : FrameError)
  | outOfRange (place length : Nat)
  | gaveUp

/-- A computation that looks before it reads. -/
abbrev Checked (α : Type) := Except Stop α

namespace Checked

variable {α β γ δ ζ : Type}

/-- What stands at a place. -/
def place (xs : List α) (i : Nat) : Checked α :=
  match xs[i]? with
  | some x => pure x
  | none => throw (.outOfRange i xs.length)

theorem place_eq_ok {xs : List α} {i : Nat} {x : α} : place xs i = .ok x ↔ xs[i]? = some x := by
  rw [place]
  cases xs[i]? <;> simp

/-- What is read at a place that is there is what is found when nothing is looked after. -/
theorem place_eq {xs : List α} {i : Nat} (h : i < xs.length) (d : α) : place xs i = .ok (xs.getD i d) := by
  rw [place_eq_ok, List.getD_eq_getElem?_getD, List.getElem?_eq_getElem h, Option.getD_some]

theorem mapM_place {xs : List α} {indices : List Nat} (h : ∀ i ∈ indices, i < xs.length) (d : α) :
    indices.mapM (place xs) = .ok (indices.map fun i => xs.getD i d) :=
  mapM_eq_map fun i hi => place_eq (h i hi) d

/-- A computation in which no place is read. -/
def plain (x : Except FrameError α) : Checked α := x.mapError .refused

theorem plain_ne_gaveUp (x : Except FrameError α) : plain x ≠ .error .gaveUp := by
  cases x <;> simp [plain, Except.mapError]

/-! ## Computations that stay in range -/

/-- Nothing is read that is not there, and an answer is one of which `P` holds. -/
def InRange (P : α → Prop) : Checked α → Prop
  | .ok a => P a
  | .error (.outOfRange _ _) => False
  | .error _ => True

section InRange

variable {P : α → Prop} {Q : β → Prop} {w : Checked α}

theorem InRange.of_ok (h : InRange P w) {a : α} (ha : w = .ok a) : P a := by
  subst ha
  exact h

theorem InRange.ne_outOfRange (h : InRange P w) (place length : Nat) :
    w ≠ .error (.outOfRange place length) := by
  rintro rfl
  exact h

theorem InRange.bind {f : α → Checked β} (h : InRange P w) (hf : ∀ a, P a → InRange Q (f a)) :
    InRange Q (w >>= f) := by
  match w, h with
  | .ok a, h => exact hf a h
  | .error (.refused _), _ | .error .gaveUp, _ => trivial

theorem InRange.mapM {f : α → Checked β} {xs : List α} (h : ∀ x ∈ xs, InRange (fun _ => True) (f x)) :
    InRange (fun _ => True) (xs.mapM f) := by
  induction xs with
  | nil => trivial
  | cons x xs ih =>
    rw [List.forall_mem_cons] at h
    rw [List.mapM_cons]
    exact h.1.bind fun _ _ => (ih h.2).bind fun _ _ => trivial

theorem inRange_plain {x : Except FrameError α} (h : ∀ a, x = .ok a → P a) : InRange P (plain x) := by
  cases x with
  | ok a => exact h a rfl
  | error e => trivial

end InRange

/-! ## Computations that mirror each other -/

/-- The checked computation is refused where the other one is, and otherwise has an answer that goes with
that of the other one. -/
def Mirrors (R : α → β → Prop) (w : Checked α) (x : Except FrameError β) : Prop :=
  match x with
  | .ok b => ∃ a, w = .ok a ∧ R a b
  | .error e => w = .error (.refused e)

variable {R : α → β → Prop} {S : γ → δ → Prop} {w : Checked α} {x : Except FrameError β}

theorem mirrors_eq_iff {w : Checked α} {x : Except FrameError α} : Mirrors Eq w x ↔ w = plain x := by
  cases x <;> simp [Mirrors, plain, Except.mapError]

theorem mirrors_plain (x : Except FrameError α) : Mirrors Eq (plain x) x := mirrors_eq_iff.2 rfl

theorem Mirrors.inRange {P : α → Prop} (h : Mirrors R w x) (hP : ∀ a b, x = .ok b → R a b → P a) :
    InRange P w := by
  cases x with
  | error e =>
    obtain rfl : w = .error (.refused e) := h
    trivial
  | ok b =>
    obtain ⟨a, rfl, hR⟩ := h
    exact hP a b rfl hR

theorem mirrors_ok {a : α} {b : β} (h : R a b) : Mirrors R (.ok a) (.ok b) := ⟨a, rfl, h⟩

theorem mirrors_error (e : FrameError) : Mirrors R (.error (.refused e)) (.error e) := rfl

theorem Mirrors.bind {f : α → Checked γ} {g : β → Except FrameError δ} (h : Mirrors R w x)
    (hf : ∀ a b, x = .ok b → R a b → Mirrors S (f a) (g b)) : Mirrors S (w >>= f) (x >>= g) := by
  cases x with
  | error e =>
    obtain rfl : w = .error (.refused e) := h
    exact mirrors_error e
  | ok b =>
    obtain ⟨a, rfl, hR⟩ := h
    exact hf a b rfl hR

/-- A checked computation with the same answer, and then one that makes use of it. -/
theorem Mirrors.bind_eq {w : Checked ζ} {x : Except FrameError ζ} {f : ζ → Checked γ}
    {g : ζ → Except FrameError δ} (h : Mirrors Eq w x)
    (hf : ∀ a, x = .ok a → Mirrors S (f a) (g a)) : Mirrors S (w >>= f) (x >>= g) :=
  h.bind fun _ b hx e => e ▸ hf b hx

/-- An answer that goes with what is made of the other one. -/
theorem Mirrors.map {S : α → δ → Prop} {g : β → δ} (h : Mirrors R w x) (hg : ∀ a b, R a b → S a (g b)) :
    Mirrors S w (x >>= fun b => pure (g b)) := by
  rw [← bind_pure w]
  exact h.bind fun a b _ hab => mirrors_ok (hg a b hab)

theorem Mirrors.ite {c : Prop} [Decidable c] {w' : Checked α} {x' : Except FrameError β}
    (h : c → Mirrors R w x) (h' : ¬c → Mirrors R w' x') :
    Mirrors R (if c then w else w') (if c then x else x') := by
  by_cases hc : c
  · rw [if_pos hc, if_pos hc]
    exact h hc
  · rw [if_neg hc, if_neg hc]
    exact h' hc

theorem Mirrors.mapM {f : ζ → Checked α} {g : ζ → Except FrameError β} {zs : List ζ}
    (h : ∀ z ∈ zs, Mirrors R (f z) (g z)) : Mirrors (List.Forall₂ R) (zs.mapM f) (zs.mapM g) := by
  induction zs with
  | nil => exact mirrors_ok .nil
  | cons z zs ih =>
    rw [List.forall_mem_cons] at h
    rw [List.mapM_cons, List.mapM_cons]
    exact h.1.bind fun a b _ hab => (ih h.2).bind fun as bs _ hall => mirrors_ok (.cons hab hall)

theorem Mirrors.mapM_eq {f : ζ → Checked α} {g : ζ → Except FrameError α} {zs : List ζ}
    (h : ∀ z ∈ zs, Mirrors Eq (f z) (g z)) : Mirrors Eq (zs.mapM f) (zs.mapM g) := by
  have hall := Mirrors.mapM h
  rwa [List.forall₂_eq_eq_eq] at hall

/-! ## Rows and keys -/

variable {t : Table} {places keys : List String} {columns : List Column}

/-- The rows of the given numbers. -/
def take (t : Table) (indices : List Nat) : Checked Table := do
  let columns ← t.columns.mapM fun c => do
    let values ← indices.mapM (place c.values)
    pure (Column.mk c.name values)
  pure ⟨columns⟩

theorem take_eq (ht : t.Level) {indices : List Nat} (hi : ∀ i ∈ indices, i < t.rowCount) :
    take t indices = .ok (t.take indices) := by
  have hcolumns : (t.columns.mapM fun c => do
      let values ← indices.mapM (place c.values)
      pure (Column.mk c.name values) : Checked (List Column)) = .ok (t.take indices).columns := by
    refine mapM_eq_map fun c hc => ?_
    rw [mapM_place (fun i hmem => ht c hc ▸ hi i hmem) .null]
    rfl
  rw [take, hcolumns]
  rfl

/-- The places of key columns. -/
def keyPlaces (t : Table) (keys : List String) : Checked (List Nat) :=
  keys.mapM fun k =>
    match t.columns.findIdx? (·.name == k) with
    | some p => pure p
    | none => throw (.refused (.plan (.schema (.missingKey k))))

/-- The columns stand at the places. -/
def StandAt (t : Table) : List Nat → List Column → Prop :=
  List.Forall₂ fun p c => t.columns[p]? = some c

theorem keyPlaces_mirrors (t : Table) (keys : List String) :
    Mirrors (StandAt t) (keyPlaces t keys) ((t.keyColumns keys).mapError .plan) := by
  rw [keyPlaces, Table.keyColumns, mapError_mapM]
  refine Mirrors.mapM fun k _ => ?_
  rw [Table.column?]
  cases hp : t.columns.findIdx? (·.name == k) with
  | none =>
    rw [List.findIdx?_eq_none_iff] at hp
    rw [List.find?_eq_none.2 fun c hc => by simp [hp c hc]]
    exact mirrors_error _
  | some p =>
    obtain ⟨hlt, hfound, hbefore⟩ := List.findIdx?_eq_some_iff_getElem.1 hp
    have hfind : t.columns.find? (·.name == k) = some t.columns[p] :=
      List.find?_eq_some_iff_getElem.2 ⟨hfound, p, hlt, rfl, fun j hj => by simpa using hbefore j hj⟩
    rw [hfind]
    exact mirrors_ok (List.getElem?_eq_getElem hlt)

/-- The cells of a row in the columns at some places. -/
def cellsAt (t : Table) (places : List Nat) (row : Nat) : Checked (List Scalar) :=
  places.mapM fun p => do
    let c ← place t.columns p
    place c.values row

theorem cellsAt_eq (ht : t.Level) {places : List Nat} (hp : StandAt t places columns) {i : Nat}
    (hi : i < t.rowCount) : cellsAt t places i = .ok (Table.cells columns i) := by
  rw [cellsAt, mapM_eq_ok, Table.cells, List.forall₂_map_right_iff]
  refine List.Forall₂.imp (fun p c hc => ?_) hp
  rw [place_eq_ok.2 hc, ok_bind]
  exact place_eq (ht c (List.mem_of_getElem? hc) ▸ hi) .null

/-- What is had from the number and the key cells of each row. -/
def eachRow (t : Table) (keys : List String) (f : Nat → List Scalar → α) : Checked (List α) := do
  let places ← keyPlaces t keys
  (List.range t.rowCount).mapM fun i => do
    let row ← cellsAt t places i
    pure (f i row)

theorem eachRow_mirrors (ht : t.Level) (keys : List String) (f : Nat → List Scalar → α) :
    Mirrors (fun rows columns => rows = (List.range t.rowCount).map fun i => f i (Table.cells columns i))
      (eachRow t keys f) ((t.keyColumns keys).mapError .plan) := by
  rw [← bind_pure ((t.keyColumns keys).mapError _)]
  refine (keyPlaces_mirrors t keys).bind fun places columns _ hp => ⟨_, mapM_eq_map fun i hi => ?_, rfl⟩
  rw [cellsAt_eq ht hp (List.mem_range.1 hi)]
  rfl

/-- The key of each row. -/
def rowDigests (t : Table) (keys : List String) : Checked (List Key) :=
  eachRow t keys fun _ row => Scalar.keyOf row

theorem rowDigests_mirrors (ht : t.Level) (keys : List String) :
    Mirrors Eq (rowDigests t keys) ((t.rowDigests keys).mapError .plan) := by
  rw [Table.rowDigests, mapError_bind]
  exact (eachRow_mirrors ht keys _).map fun _ _ h => h

/-- The key of each row for matching. -/
def rowKeys (t : Table) (keys : List String) : Checked (List (Option Key)) :=
  eachRow t keys fun _ row => if row.any Scalar.isNull then none else some (Scalar.keyOf row)

theorem rowKeys_mirrors (ht : t.Level) (keys : List String) :
    Mirrors Eq (rowKeys t keys) ((t.rowKeys keys).mapError .plan) := by
  rw [Table.rowKeys, mapError_bind]
  exact (eachRow_mirrors ht keys _).map fun _ _ h => h

end Checked
end LazyQuery
