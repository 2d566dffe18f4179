import LazyQuery.Table.Join
import Mathlib.Data.List.Basic
import Mathlib.Data.List.Induction

/-!
# Rows found by key

An index of rows by key is built row by row. What is found in it under a key are the rows that have the
key, in order (`KeyIndex.lookup_ofKeys`). So the pairs of a join, for which each left row is looked up in
an index of the right ones, are those that a loop over both sides finds (`joinPairs_eq_loop`).
-/

set_option autoImplicit false

namespace LazyQuery.Table

/-- The numbers of the rows that have a key. -/
def rowsWith (keys : List (Option Key)) (k : Key) : List Nat :=
  (keys.zipIdx.filter fun (k', _) => k' == some k).map (·.2)

namespace KeyIndex

theorem lookup_entry (k k' : Key) (rows : List Nat) (rest : KeyIndex) :
    List.lookup k' ((k, rows) :: rest) = if k' = k then some rows else rest.lookup k' := by
  rw [List.lookup_cons]
  by_cases h : k' = k
  · rw [if_pos h, h, beq_self_eq_true]
  · rw [if_neg h, beq_false_of_ne h]

theorem lookup_insert (index : KeyIndex) (k k' : Key) (i : Nat) : (insert k i index).lookup k' =
    if k' = k then some ((index.lookup k).getD [] ++ [i]) else index.lookup k' := by
  induction index with
  | nil => exact lookup_entry k k' [i] []
  | cons entry rest ih =>
    obtain ⟨k₁, rows⟩ := entry
    rw [insert]
    by_cases hk : k₁ = k
    · subst hk
      rw [if_pos rfl, lookup_entry, lookup_entry, lookup_entry, if_pos rfl, Option.getD_some]
      split <;> rfl
    · rw [if_neg hk, lookup_entry, ih, lookup_entry, lookup_entry, if_neg (Ne.symm hk)]
      by_cases h : k' = k₁
      · rw [if_pos h, if_neg fun h' => hk (h.symm.trans h'), if_pos h]
      · rw [if_neg h, if_neg h]

/-- **What is found under a key are the rows that have it.** Under a key of no row nothing is found. -/
theorem lookup_ofKeys (keys : List (Option Key)) (k : Key) : (ofKeys keys).lookup k =
    if rowsWith keys k = [] then none else some (rowsWith keys k) := by
  induction keys using List.reverseRecOn with
  | nil => rfl
  | append_singleton keys last ih =>
    have hindex : ofKeys (keys ++ [last]) =
        last.elim (ofKeys keys) (insert · keys.length (ofKeys keys)) := by
      simp [ofKeys, List.zipIdx_append]
    have hrows : rowsWith (keys ++ [last]) k =
        rowsWith keys k ++ if last = some k then [keys.length] else [] := by
      by_cases h : last = some k <;> simp [rowsWith, List.zipIdx_append, h]
    rw [hindex, hrows]
    cases last with
    | none =>
      rw [Option.elim_none, if_neg (Option.some_ne_none k).symm, List.append_nil]
      exact ih
    | some k₁ =>
      rw [Option.elim_some, lookup_insert]
      by_cases h : k = k₁
      · subst h
        have hsome : ((ofKeys keys).lookup k).getD [] = rowsWith keys k := by
          rw [ih]
          split
          · rename_i hnone
            exact hnone.symm
          · rfl
        rw [if_pos rfl, if_pos rfl, if_neg (List.append_ne_nil_of_right_ne_nil _ (List.cons_ne_nil _ _)),
          hsome]
      · rw [if_neg h, if_neg fun he => h (Option.some.inj he).symm, List.append_nil]
        exact ih

end KeyIndex

/-- The rows that have the key of a row; a row without a key goes with none. -/
def partners (keys : List (Option Key)) (key : Option Key) : List Nat :=
  key.elim [] (rowsWith keys)

/-- **The pairs of a join are those of a loop over both sides.** -/
theorem joinPairs_eq_loop (how : JoinType) (leftKeys rightKeys : List (Option Key)) :
    joinPairs how leftKeys rightKeys = leftKeys.zipIdx.flatMap fun (key, i) =>
      match partners rightKeys key with
      | [] => if how = .left then [(i, none)] else []
      | js => js.map fun j => (i, some j) := by
  rw [joinPairs]
  refine List.flatMap_congr fun p _ => ?_
  obtain ⟨key, i⟩ := p
  cases key with
  | none => rfl
  | some k =>
    dsimp only [Option.bind_some, partners, Option.elim_some]
    rw [KeyIndex.lookup_ofKeys]
    cases rowsWith rightKeys k <;> rfl

end LazyQuery.Table
