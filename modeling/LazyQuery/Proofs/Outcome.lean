import LazyQuery.Error
import Mathlib.Data.List.Forall2

/-!
# How computations end

Two kinds of computations occur. A step of type `Except ε α` has an answer or an error. An operation
of type `EStateM ε σ α` has one too and moreover changes a state, whichever of the two it ends in.

* For steps, the lemmas say of each way to build one when it has a given answer, and `FailsOnly P x`
  says that every error of `x` is one of which `P` holds.
* For operations, `Ends x s Q E` says how `x` ends when it is started in the state `s`: if it ends
  in an answer, the answer and the last state satisfy `Q`, and if it ends in an error, the error and
  the last state satisfy `E`. The lemmas `Ends.bind`, `Ends.mono` and so on follow the form of `x`.
-/

set_option autoImplicit false

namespace LazyQuery

universe u

/-! ## Steps -/

section Steps

variable {ε ε' α β : Type u}

theorem bind_eq_ok {x : Except ε α} {f : α → Except ε β} {b : β} :
    (x >>= f) = .ok b ↔ ∃ a, x = .ok a ∧ f a = .ok b := by
  cases x with
  | ok a => simp [bind, Except.bind]
  | error e => simp [bind, Except.bind]

@[simp] theorem ok_bind (a : α) (f : α → Except ε β) : (Except.ok a >>= f) = f a := rfl

theorem bind_of_ok {x : Except ε α} {a : α} (h : x = .ok a) (f : α → Except ε β) :
    (x >>= f) = f a := h ▸ rfl

@[simp] theorem error_bind (e : ε) (f : α → Except ε β) :
    (Except.error e >>= f) = Except.error e := rfl

@[simp] theorem pure_eq_ok (a : α) : (pure a : Except ε α) = .ok a := rfl

@[simp] theorem throw_eq_error (e : ε) : (throw e : Except ε α) = .error e := rfl

theorem ite_error_eq_ok {c : Prop} [Decidable c] {e : ε} {x : Except ε α} {a : α} :
    (if c then .error e else x) = .ok a ↔ ¬c ∧ x = .ok a := by
  by_cases h : c <;> simp [h]

theorem mapError_eq_ok {f : ε → ε'} {x : Except ε α} {a : α} :
    x.mapError f = .ok a ↔ x = .ok a := by
  cases x <;> simp [Except.mapError]

theorem mapError_eq_error {f : ε → ε'} {x : Except ε α} {e : ε'} :
    x.mapError f = .error e ↔ ∃ e', x = .error e' ∧ f e' = e := by
  cases x <;> simp [Except.mapError]

theorem mapError_bind {g : ε → ε'} (x : Except ε α) (f : α → Except ε β) :
    (x >>= f).mapError g = x.mapError g >>= fun a => (f a).mapError g := by
  cases x <;> rfl

theorem mapError_mapM {g : ε → ε'} (f : α → Except ε β) (xs : List α) :
    (xs.mapM f).mapError g = xs.mapM fun x => (f x).mapError g := by
  induction xs with
  | nil => rfl
  | cons x xs ih =>
    rw [List.mapM_cons, List.mapM_cons, mapError_bind]
    refine congrArg _ (funext fun y => ?_)
    rw [mapError_bind, ih]
    rfl

theorem bind_eq_error {x : Except ε α} {f : α → Except ε β} {e : ε} :
    (x >>= f) = .error e ↔ x = .error e ∨ ∃ a, x = .ok a ∧ f a = .error e := by
  cases x with
  | ok a => simp [bind, Except.bind]
  | error e => simp [bind, Except.bind]

theorem mapM_eq_ok {f : α → Except ε β} {xs : List α} {ys : List β} :
    xs.mapM f = .ok ys ↔ List.Forall₂ (fun x y => f x = .ok y) xs ys := by
  induction xs generalizing ys with
  | nil => cases ys <;> simp
  | cons x xs ih =>
    rw [List.mapM_cons, bind_eq_ok]
    constructor
    · rintro ⟨y, hy, h⟩
      obtain ⟨zs, hzs, h⟩ := bind_eq_ok.1 h
      cases h
      exact .cons hy (ih.1 hzs)
    · rintro (_ | ⟨hy, h⟩)
      exact ⟨_, hy, bind_eq_ok.2 ⟨_, ih.2 h, rfl⟩⟩

/-- A step for each element, each with a known answer. -/
theorem mapM_eq_map {f : α → Except ε β} {y : α → β} {xs : List α} (h : ∀ x ∈ xs, f x = .ok (y x)) :
    xs.mapM f = .ok (xs.map y) := by
  rw [mapM_eq_ok, List.forall₂_map_right_iff]
  exact List.forall₂_same.2 h

theorem exists_of_mem_left {R : α → β → Prop} {xs : List α} {ys : List β} (h : List.Forall₂ R xs ys)
    {x : α} (hx : x ∈ xs) : ∃ y ∈ ys, R x y := by
  obtain ⟨i, hi, rfl⟩ := List.getElem_of_mem hx
  exact ⟨_, List.getElem_mem (h.length_eq ▸ hi), h.get hi (h.length_eq ▸ hi)⟩

theorem exists_of_mem_right {R : α → β → Prop} {xs : List α} {ys : List β} (h : List.Forall₂ R xs ys)
    {y : β} (hy : y ∈ ys) : ∃ x ∈ xs, R x y := exists_of_mem_left h.flip hy

theorem exists_of_mem_mapM {f : α → Except ε β} {xs : List α} {ys : List β}
    (h : xs.mapM f = .ok ys) {y : β} (hy : y ∈ ys) : ∃ x ∈ xs, f x = .ok y :=
  exists_of_mem_right (mapM_eq_ok.1 h) hy

/-- One step after another has an answer if both have. -/
theorem bind_isOk {x : Except ε α} {f : α → Except ε β} (hx : ∃ a, x = .ok a)
    (hf : ∀ a, x = .ok a → ∃ b, f a = .ok b) : ∃ b, (x >>= f) = .ok b := by
  obtain ⟨a, ha⟩ := hx
  obtain ⟨b, hb⟩ := hf a ha
  exact ⟨b, bind_eq_ok.2 ⟨a, ha, hb⟩⟩

/-- Every error of the step is one of which `P` holds. -/
def FailsOnly (P : ε → Prop) (x : Except ε α) : Prop := ∀ e, x = .error e → P e

variable {P : ε → Prop} {x : Except ε α}

@[simp] theorem failsOnly_ok (a : α) : FailsOnly P (.ok a : Except ε α) := fun _ h => by cases h

@[simp] theorem failsOnly_error {e : ε} : FailsOnly P (.error e : Except ε α) ↔ P e :=
  ⟨fun h => h e rfl, fun h _ he => by cases he; exact h⟩

theorem FailsOnly.mono {P' : ε → Prop} (h : FailsOnly P x) (hP : ∀ e, P e → P' e) :
    FailsOnly P' x :=
  fun e he => hP e (h e he)

theorem FailsOnly.bind {f : α → Except ε β} (hx : FailsOnly P x)
    (hf : ∀ a, x = .ok a → FailsOnly P (f a)) : FailsOnly P (x >>= f) := by
  intro e he
  rcases bind_eq_error.1 he with h | ⟨a, ha, h⟩
  · exact hx e h
  · exact hf a ha e h

theorem FailsOnly.ite {c : Prop} [Decidable c] {y : Except ε α} (hx : c → FailsOnly P x)
    (hy : ¬c → FailsOnly P y) : FailsOnly P (if c then x else y) := by
  by_cases h : c
  · rw [if_pos h]; exact hx h
  · rw [if_neg h]; exact hy h

theorem FailsOnly.mapError {f : ε → ε'} {P : ε' → Prop} (h : FailsOnly (fun e => P (f e)) x) :
    FailsOnly P (x.mapError f) := by
  intro e he
  obtain ⟨e', he', rfl⟩ := mapError_eq_error.1 he
  exact h e' he'

theorem FailsOnly.mapM {f : α → Except ε β} {xs : List α} (h : ∀ x ∈ xs, FailsOnly P (f x)) :
    FailsOnly P (xs.mapM f) := by
  induction xs with
  | nil => exact failsOnly_ok []
  | cons x xs ih =>
    rw [List.mapM_cons]
    exact (h x (by simp)).bind fun y _ =>
      (ih fun z hz => h z (by simp [hz])).bind fun ys _ => failsOnly_ok _

theorem FailsOnly.foldlM {f : β → α → Except ε β} {xs : List α} {b : β}
    (h : ∀ b, ∀ x ∈ xs, FailsOnly P (f b x)) : FailsOnly P (xs.foldlM f b) := by
  induction xs generalizing b with
  | nil => exact failsOnly_ok b
  | cons x xs ih =>
    rw [List.foldlM_cons]
    exact (h b x (by simp)).bind fun c _ => ih fun b z hz => h b z (by simp [hz])

theorem FailsOnly.forM {f : α → Except ε PUnit} {xs : List α} (h : ∀ x ∈ xs, FailsOnly P (f x)) :
    FailsOnly P (xs.forM f) := by
  induction xs with
  | nil => exact failsOnly_ok _
  | cons x xs ih =>
    rw [List.forM]
    exact (h x (by simp)).bind fun _ _ => ih fun z hz => h z (by simp [hz])

/-- Whether a step has a given answer can be computed. -/
instance decidableEqOk [DecidableEq α] (a : α) : Decidable (x = .ok a) :=
  match x with
  | .ok b => decidable_of_iff (b = a) ⟨congrArg _, Except.ok.inj⟩
  | .error _ => .isFalse nofun

end Steps

/-! ## Operations -/

section Operations

variable {ε σ α β : Type} {x : EStateM ε σ α} {s : σ}

/-- Started in `s`, the operation ends in an answer as `Q` says or in an error as `E` says. -/
def Ends (x : EStateM ε σ α) (s : σ) (Q : α → σ → Prop) (E : ε → σ → Prop) : Prop :=
  match x s with
  | .ok a t => Q a t
  | .error e t => E e t

/-- Whether an operation has a given answer can be computed. -/
instance decidableExistsOk [DecidableEq α] (a : α) : Decidable (∃ t, x s = .ok a t) :=
  match x s with
  | .ok b t => decidable_of_iff (b = a) ⟨fun h => ⟨t, by rw [h]⟩, fun ⟨_, h⟩ => by cases h; rfl⟩
  | .error _ _ => .isFalse nofun

/-- Whether an operation has a given error can be computed. -/
instance decidableExistsError [DecidableEq ε] (e : ε) : Decidable (∃ t, x s = .error e t) :=
  match x s with
  | .ok _ _ => .isFalse nofun
  | .error e' t => decidable_of_iff (e' = e) ⟨fun h => ⟨t, by rw [h]⟩, fun ⟨_, h⟩ => by cases h; rfl⟩

variable {Q : α → σ → Prop} {E : ε → σ → Prop}

theorem ends_iff : Ends x s Q E ↔
    (∀ a t, x s = .ok a t → Q a t) ∧ ∀ e t, x s = .error e t → E e t := by
  rw [Ends]
  cases x s <;> simp

theorem ends_trivial : Ends x s (fun _ _ => True) fun _ _ => True :=
  ends_iff.2 ⟨fun _ _ _ => trivial, fun _ _ _ => trivial⟩

theorem Ends.of_ok (h : Ends x s Q E) {a : α} {t : σ} (hx : x s = .ok a t) : Q a t :=
  (ends_iff.1 h).1 a t hx

theorem Ends.of_error (h : Ends x s Q E) {e : ε} {t : σ} (hx : x s = .error e t) : E e t :=
  (ends_iff.1 h).2 e t hx

theorem Ends.mono {Q' : α → σ → Prop} {E' : ε → σ → Prop} (h : Ends x s Q E)
    (hQ : ∀ a t, Q a t → Q' a t) (hE : ∀ e t, E e t → E' e t) : Ends x s Q' E' :=
  ends_iff.2 ⟨fun _ _ hx => hQ _ _ (h.of_ok hx), fun _ _ hx => hE _ _ (h.of_error hx)⟩

/-- An operation that cannot fail has an answer. -/
theorem Ends.exists_ok (h : Ends x s Q fun _ _ => False) : ∃ a t, x s = .ok a t ∧ Q a t := by
  rw [Ends] at h
  cases hx : x s with
  | ok a t =>
    rw [hx] at h
    exact ⟨a, t, rfl, h⟩
  | error e t =>
    rw [hx] at h
    exact h.elim

/-- An operation that has no answer fails. -/
theorem Ends.exists_error (h : Ends x s (fun _ _ => False) E) : ∃ e t, x s = .error e t ∧ E e t := by
  rw [Ends] at h
  cases hx : x s with
  | ok a t =>
    rw [hx] at h
    exact h.elim
  | error e t =>
    rw [hx] at h
    exact ⟨e, t, rfl, h⟩

theorem Ends.and {Q' : α → σ → Prop} {E' : ε → σ → Prop} (h : Ends x s Q E) (h' : Ends x s Q' E') :
    Ends x s (fun a t => Q a t ∧ Q' a t) fun e t => E e t ∧ E' e t :=
  ends_iff.2 ⟨fun _ _ hx => ⟨h.of_ok hx, h'.of_ok hx⟩,
    fun _ _ hx => ⟨h.of_error hx, h'.of_error hx⟩⟩

@[simp] theorem ends_pure {a : α} : Ends (pure a : EStateM ε σ α) s Q E ↔ Q a s := Iff.rfl

@[simp] theorem ends_get {Q : σ → σ → Prop} : Ends (get : EStateM ε σ σ) s Q E ↔ Q s s := Iff.rfl

@[simp] theorem ends_set {t : σ} {Q : PUnit → σ → Prop} :
    Ends (set t : EStateM ε σ PUnit) s Q E ↔ Q ⟨⟩ t := Iff.rfl

@[simp] theorem ends_modify {f : σ → σ} {Q : PUnit → σ → Prop} :
    Ends (modify f : EStateM ε σ PUnit) s Q E ↔ Q ⟨⟩ (f s) := Iff.rfl

@[simp] theorem ends_bind {f : α → EStateM ε σ β} {Q : β → σ → Prop} :
    Ends (x >>= f) s Q E ↔ Ends x s (fun a t => Ends (f a) t Q E) E := by
  simp only [Ends, bind, EStateM.bind]
  cases x s <;> rfl

/-- An answer of two operations is one of the second, after one of the first. -/
theorem run_bind_eq_ok {f : α → EStateM ε σ β} {b : β} {t : σ} :
    (x >>= f) s = .ok b t ↔ ∃ a u, x s = .ok a u ∧ f a u = .ok b t := by
  simp only [bind, EStateM.bind]
  cases x s <;> simp

theorem run_bind_of_ok {f : α → EStateM ε σ β} {a : α} {t : σ} (h : x s = .ok a t) :
    (x >>= f) s = f a t := by
  simp only [bind, EStateM.bind, h]

theorem run_bind_of_error {f : α → EStateM ε σ β} {e : ε} {t : σ} (h : x s = .error e t) :
    (x >>= f) s = .error e t := by
  simp only [bind, EStateM.bind, h]

theorem Ends.bind {f : α → EStateM ε σ β} {R : β → σ → Prop} (h : Ends x s Q E)
    (hf : ∀ a t, Q a t → Ends (f a) t R E) : Ends (x >>= f) s R E :=
  ends_bind.2 (h.mono hf fun _ _ he => he)

theorem Ends.andThen {f : α → EStateM ε σ β} {R : β → σ → Prop} {E' : ε → σ → Prop}
    (h : Ends x s Q E) (hf : ∀ a t, Q a t → Ends (f a) t R E') (he : ∀ e t, E e t → E' e t) :
    Ends (x >>= f) s R E' :=
  ends_bind.2 (h.mono hf he)

/-- What is done in the end is done after an answer as after an error. -/
theorem ends_finally {y : EStateM ε σ β} :
    Ends (tryFinally x y) s Q E ↔
      Ends x s (fun a t => Ends y t (fun _ => Q a) E) fun e t => Ends y t (fun _ => E e) E := by
  simp only [Ends, tryFinally, tryFinally', Functor.map, EStateM.map]
  cases x s with
  | ok a t => dsimp only; cases y t <;> rfl
  | error e t => dsimp only; cases y t <;> rfl

@[simp] theorem ends_tryCatch {handle : ε → EStateM ε σ α} :
    Ends (tryCatch x handle) s Q E ↔ Ends x s Q fun e t => Ends (handle e) t Q E := by
  simp only [Ends, tryCatch, tryCatchThe, MonadExceptOf.tryCatch, EStateM.tryCatch]
  cases x s <;> rfl

theorem Ends.ite {c : Prop} [Decidable c] {y : EStateM ε σ α} (hx : c → Ends x s Q E)
    (hy : ¬c → Ends y s Q E) : Ends (if c then x else y) s Q E := by
  by_cases h : c
  · rw [if_pos h]; exact hx h
  · rw [if_neg h]; exact hy h

/-- What holds before each element's turn holds after all of them. -/
theorem Ends.forM {γ : Type} {f : γ → EStateM ε σ PUnit} {I : List γ → σ → Prop} {xs : List γ}
    (hs : I xs s) (hf : ∀ x rest t, I (x :: rest) t → Ends (f x) t (fun _ => I rest) E) :
    Ends (xs.forM f) s (fun _ => I []) E := by
  induction xs generalizing s with
  | nil => exact hs
  | cons x xs ih => exact Ends.bind (hf x xs s hs) fun _ t ht => ih ht

end Operations

end LazyQuery
