import LazyQuery.Proofs.Table.Index
import LazyQuery.Proofs.Table.Places

/-!
# Groups collected in slots

The rows of a group are collected in its slot. Which slot a key has is looked up in a list of the keys that
were met, and a new key gets a new slot at the end. The slot that is looked up is always there, and what is
collected are the classes of the keys (`collect_eq`).
-/

set_option autoImplicit false

namespace LazyQuery

/-! ## Classes of a longer list -/

variable {keys : List Key} {k d : Key}

theorem firstPositions_append_singleton (seen : List Key) (i : Nat) (keys : List Key) (d : Key) :
    firstPositions seen i (keys ++ [d]) =
      firstPositions seen i keys ++ if d ∈ keys ∨ d ∈ seen then [] else [i + keys.length] := by
  induction keys generalizing seen i with
  | nil => by_cases h : d ∈ seen <;> simp [firstPositions, h]
  | cons k rest ih =>
    rw [List.cons_append, firstPositions, firstPositions, ih, ih, List.length_cons]
    have hposition : i + 1 + rest.length = i + (rest.length + 1) := by omega
    by_cases hk : k ∈ seen
    · have hiff : (d ∈ k :: rest ∨ d ∈ seen) ↔ (d ∈ rest ∨ d ∈ seen) := by
        rw [List.mem_cons]
        constructor
        · rintro ((rfl | h) | h)
          exacts [.inr hk, .inl h, .inr h]
        · exact Or.imp_left .inr
      rw [if_pos hk, if_pos hk, hposition, if_congr hiff rfl rfl]
    · have hiff : (d ∈ k :: rest ∨ d ∈ seen) ↔ (d ∈ rest ∨ d ∈ k :: seen) := by
        rw [List.mem_cons, List.mem_cons]
        tauto
      rw [if_neg hk, if_neg hk, hposition, if_congr hiff rfl rfl, List.cons_append]

theorem lt_of_mem_firstPositions {seen : List Key} {i j : Nat} (h : j ∈ firstPositions seen i keys) :
    j < i + keys.length := by
  induction keys generalizing seen i with
  | nil => cases h
  | cons k rest ih =>
    rw [List.length_cons]
    rw [firstPositions] at h
    split at h
    · have := ih h
      omega
    · obtain rfl | h := List.mem_cons.1 h
      · omega
      · have := ih h
        omega

/-- The keys, each where it first occurs. -/
def firstKeys (keys : List Key) : List Key :=
  (firstPositions [] 0 keys).map fun i => keys.getD i []

theorem classes_eq (keys : List Key) : classes keys = (firstKeys keys).map (positionsOf keys) := by
  rw [classes, firstKeys, List.map_map]
  rfl

theorem firstKeys_append_singleton (keys : List Key) (d : Key) :
    firstKeys (keys ++ [d]) = firstKeys keys ++ if d ∈ keys then [] else [d] := by
  have hbefore : (firstPositions [] 0 keys).map (fun i => (keys ++ [d]).getD i []) = firstKeys keys := by
    refine List.map_congr_left fun i hi => ?_
    have hi : i < keys.length := Nat.zero_add keys.length ▸ lt_of_mem_firstPositions hi
    rw [List.getD_eq_getElem?_getD, List.getElem?_append_left hi, ← List.getD_eq_getElem?_getD]
  rw [firstKeys, firstPositions_append_singleton, List.map_append, hbefore]
  by_cases hd : d ∈ keys
  · rw [if_pos (.inl hd), if_pos hd]
    rfl
  · rw [if_neg (by simpa using hd), if_neg hd]
    simp

theorem mem_firstKeys : k ∈ firstKeys keys ↔ k ∈ keys := by
  induction keys using List.reverseRecOn with
  | nil => rfl
  | append_singleton keys d ih =>
    rw [firstKeys_append_singleton, List.mem_append, ih, List.mem_append, List.mem_singleton]
    by_cases hd : d ∈ keys
    · rw [if_pos hd]
      exact ⟨fun h => .inl (h.resolve_right List.not_mem_nil), fun h => .inl (h.elim id fun e => e ▸ hd)⟩
    · rw [if_neg hd, List.mem_singleton]

theorem nodup_firstKeys (keys : List Key) : (firstKeys keys).Nodup := by
  induction keys using List.reverseRecOn with
  | nil => exact List.nodup_nil
  | append_singleton keys d ih =>
    rw [firstKeys_append_singleton]
    split
    · rwa [List.append_nil]
    · rename_i hd
      exact List.nodup_append_comm.1 (List.nodup_cons.2 ⟨mt mem_firstKeys.1 hd, ih⟩)

theorem positionsOf_append_singleton (keys : List Key) (d k : Key) :
    positionsOf (keys ++ [d]) k = positionsOf keys k ++ if d = k then [keys.length] else [] := by
  by_cases h : d = k <;> simp [positionsOf, List.zipIdx_append, h]

theorem positionsOf_eq_nil (h : k ∉ keys) : positionsOf keys k = [] := by
  rw [positionsOf, List.map_eq_nil_iff, List.filter_eq_nil_iff]
  rintro ⟨k', i⟩ hmem he
  rw [beq_iff_eq] at he
  exact h (he ▸ (List.fst_mem_of_mem_zipIdx hmem))

/-- One more key of a class goes to the end of it. -/
theorem classes_append_of_mem {slot : Nat} (h : (firstKeys keys)[slot]? = some d) :
    classes (keys ++ [d]) = (classes keys).set slot (positionsOf keys d ++ [keys.length]) := by
  have hd : d ∈ keys := mem_firstKeys.1 (List.mem_of_getElem? h)
  obtain ⟨hslot, hkey⟩ := List.getElem?_eq_some_iff.1 h
  rw [classes_eq, classes_eq, firstKeys_append_singleton, if_pos hd, List.append_nil]
  refine List.ext_getElem (by simp) fun i hi _ => ?_
  rw [List.length_map] at hi
  rw [List.getElem_set, List.getElem_map, List.getElem_map, positionsOf_append_singleton]
  by_cases he : slot = i
  · subst he
    rw [if_pos rfl, hkey, if_pos rfl]
  · have hother : d ≠ (firstKeys keys)[i] := fun e =>
      he ((nodup_firstKeys keys).getElem_inj_iff.1 (hkey.trans e))
    rw [if_neg he, if_neg hother, List.append_nil]

/-- A new key makes a class of its own. -/
theorem classes_append_of_notMem (h : d ∉ keys) :
    classes (keys ++ [d]) = classes keys ++ [[keys.length]] := by
  rw [classes_eq, classes_eq, firstKeys_append_singleton, if_neg h, List.map_append, List.map_singleton,
    positionsOf_append_singleton, if_pos rfl, positionsOf_eq_nil h]
  refine congrArg (· ++ _) (List.map_congr_left fun k hk => ?_)
  have hother : d ≠ k := fun e => h (e ▸ mem_firstKeys.1 hk)
  rw [positionsOf_append_singleton, if_neg hother, List.append_nil]

theorem getElem?_concat_eq_some {α : Type} {xs : List α} {x y : α} {i : Nat} :
    (xs ++ [x])[i]? = some y ↔ xs[i]? = some y ∨ i = xs.length ∧ x = y := by
  by_cases h : i < xs.length
  · rw [List.getElem?_append_left h]
    exact (or_iff_left fun he => Nat.ne_of_lt h he.1).symm
  · rw [List.getElem?_append_right (Nat.le_of_not_lt h), List.getElem?_eq_none (Nat.le_of_not_lt h),
      List.getElem?_singleton]
    by_cases he : i = xs.length
    · simp [he]
    · rw [if_neg (by omega)]
      simp [he]

/-! ## Slots -/

namespace Checked

/-- Groups of row numbers, and the numbers of the slots that the keys have among them. -/
structure Slots where
  slots : List (Key × Nat)
  groups : List (List Nat)

namespace Slots

/-- The slot of a key; a new key gets a slot of its own. -/
def slotOf (s : Slots) (d : Key) : Nat × Slots :=
  match s.slots.lookup d with
  | some slot => (slot, s)
  | none => (s.groups.length, ⟨(d, s.groups.length) :: s.slots, s.groups ++ [[]]⟩)

/-- Put one more row into the slot of its key. -/
def add (s : Slots) (d : Key) (row : Nat) : Checked Slots := do
  let (slot, s) := s.slotOf d
  let group ← place s.groups slot
  pure { s with groups := s.groups.set slot (group ++ [row]) }

/-- What is in the slots are the classes of the keys, and each key has the slot of its class. -/
structure Fits (s : Slots) (keys : List Key) : Prop where
  groups : s.groups = classes keys
  slots : ∀ d i, s.slots.lookup d = some i ↔ (firstKeys keys)[i]? = some d

variable {s : Slots}

theorem fits_nil : Fits ⟨[], []⟩ [] := ⟨rfl, by simp [firstKeys, firstPositions]⟩

theorem add_fits (h : s.Fits keys) (d : Key) :
    ∃ s', s.add d keys.length = .ok s' ∧ s'.Fits (keys ++ [d]) := by
  obtain ⟨hgroups, hslots⟩ := h
  rw [add, slotOf]
  cases hslot : s.slots.lookup d with
  | some slot =>
    have hfirst := (hslots d slot).1 hslot
    have hd : d ∈ keys := mem_firstKeys.1 (List.mem_of_getElem? hfirst)
    have hplace : place s.groups slot = .ok (positionsOf keys d) := by
      rw [place_eq_ok, hgroups, classes_eq, List.getElem?_map, hfirst]
      rfl
    dsimp only
    rw [hplace]
    refine ⟨_, rfl, ?_, fun d' i => ?_⟩
    · rw [classes_append_of_mem hfirst, hgroups]
    · rw [firstKeys_append_singleton, if_pos hd, List.append_nil]
      exact hslots d' i
  | none =>
    -- The slot of a new key is the one that was just put at the end.
    have hd : d ∉ keys := fun hmem => by
      obtain ⟨i, hi⟩ := List.mem_iff_getElem?.1 (mem_firstKeys.2 hmem)
      rw [(hslots d i).2 hi] at hslot
      cases hslot
    have hlength : s.groups.length = (firstKeys keys).length := by rw [hgroups, classes_eq, List.length_map]
    have hplace : place (s.groups ++ [[]]) s.groups.length = .ok [] := by
      rw [place_eq_ok, List.getElem?_concat_length]
    dsimp only
    rw [hplace]
    refine ⟨_, rfl, ?_, fun d' i => ?_⟩
    · rw [classes_append_of_notMem hd, hgroups]
      simp
    · rw [firstKeys_append_singleton, if_neg hd, getElem?_concat_eq_some, ← hslots, ← hlength,
        List.lookup_cons]
      by_cases hd' : d' = d
      · subst hd'
        rw [beq_self_eq_true, hslot]
        simp [eq_comm]
      · rw [beq_false_of_ne hd']
        exact (or_iff_left fun he => hd' he.2.symm).symm

end Slots

/-- The row numbers of each class of equal keys, collected row by row. -/
def collect (keys : List Key) : Checked (List (List Nat)) := do
  let s ← keys.zipIdx.foldlM (fun s (d, row) => s.add d row) (Slots.mk [] [])
  pure s.groups

theorem exists_fits (keys : List Key) :
    ∃ s, keys.zipIdx.foldlM (fun s (d, row) => s.add d row) (Slots.mk [] []) = .ok s ∧ s.Fits keys := by
  induction keys using List.reverseRecOn with
  | nil => exact ⟨_, rfl, Slots.fits_nil⟩
  | append_singleton keys d ih =>
    obtain ⟨s, hs, hfits⟩ := ih
    obtain ⟨s', hadd, hfits'⟩ := Slots.add_fits hfits d
    refine ⟨s', ?_, hfits'⟩
    rw [List.zipIdx_append, List.foldlM_append, hs, ok_bind, Nat.zero_add]
    exact bind_of_ok hadd _

/-- **What is collected are the classes of the keys**, and every slot is there when it is filled. -/
theorem collect_eq (keys : List Key) : collect keys = .ok (classes keys) := by
  obtain ⟨s, hs, hfits⟩ := exists_fits keys
  rw [collect, hs, ok_bind, hfits.groups]
  rfl

end Checked
end LazyQuery
