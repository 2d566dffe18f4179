import LazyQuery.Proofs.Sql.Select

/-!
# Results that are had

What a result tells of the query that it was had from: the names of its columns and the rows that were
read. In contrast to the theory of queries over tables nothing is asked of the types of the columns.

`Select.eval?_eq_some` and `evalCompound?_eq_some` take a result apart. A compound has the names of its
first part.
-/

set_option autoImplicit false

namespace LazyQuery.Sql

/-- The names of the columns. -/
def Relation.names (r : Relation) : List String := r.columns.map (·.name)

section

variable {catalog : Catalog} {asked : Bool} {s : Select} {c : Compound} {r : Relation}

/-- What the result of a `SELECT` is made of. -/
theorem Select.eval?_eq_some (h : s.eval? catalog asked = some r) :
    ∃ scope input, s.reads? catalog = some (scope, input) ∧ s.wellFormed scope = true ∧
      r.columns = s.items.map (s.heading scope asked) ∧
        r.toDelivery = s.delivery scope asked input ∧ r.numbers? = none := by
  obtain ⟨⟨scope, input⟩, hin, hr⟩ := Option.bind_eq_some_iff.1 h
  cases hw : s.wellFormed scope with
  | false => simp [hw] at hr
  | true =>
    obtain ⟨r', hr', hcolumns, hdelivery, hnumbers⟩ := eval?_isSome asked hin hw
    rw [h, Option.some.injEq] at hr'
    subst hr'
    exact ⟨scope, input, hin, hw, hcolumns, hdelivery, hnumbers⟩

theorem Select.names_of_eval? (h : s.eval? catalog asked = some r) :
    ∃ scope input, s.reads? catalog = some (scope, input) ∧
      r.names = s.items.map (·.resultName scope) := by
  obtain ⟨scope, input, hin, -, hcolumns, -, -⟩ := eval?_eq_some h
  exact ⟨scope, input, hin, by rw [Relation.names, hcolumns, List.map_map]; rfl⟩

/-- What the result of a compound is made of. -/
theorem evalCompound?_eq_some (h : evalCompound? catalog asked c = some r) :
    ∃ s rest p parts, c = s :: rest ∧ s.eval? catalog asked = some p ∧
      rest.mapM (fun s => s.eval? catalog asked) = some parts ∧ r.names = p.names ∧
        r.toDelivery = parts.foldl (fun d q => d.append q.toDelivery) p.toDelivery := by
  obtain ⟨all, hall, h⟩ := Option.bind_eq_some_iff.1 h
  cases c with
  | nil =>
    rw [List.mapM_nil, Option.pure_def, Option.some.injEq] at hall
    subst hall
    cases h
  | cons s rest =>
    obtain ⟨p, hp, hall⟩ := Option.bind_eq_some_iff.1 ((List.mapM_cons ..).symm.trans hall)
    obtain ⟨parts, hparts, hall⟩ := Option.bind_eq_some_iff.1 hall
    cases hall
    dsimp only at h
    split at h
    · cases h
      refine ⟨s, rest, p, parts, rfl, hp, hparts, ?_, rfl⟩
      calc
        _ = (p.columns.zipIdx.map Prod.fst).map Heading.name := by
          rw [Relation.names, List.map_map, List.map_map]
          rfl
        _ = p.names := by rw [List.zipIdx_map_fst, Relation.names]
    · cases h

/-- A compound of one `SELECT` has its result. -/
theorem evalCompound?_of_select (h : s.eval? catalog asked = some r) :
    ∃ q, evalCompound? catalog asked [s] = some q ∧ q.names = r.names ∧
      q.toDelivery = r.toDelivery := by
  have hparts : [s].mapM (fun s => s.eval? catalog asked) = some [r] :=
    mapM_eq_some_of_forall₂ (.cons h .nil)
  have hq : ∃ q, evalCompound? catalog asked [s] = some q := by
    rw [evalCompound?, hparts]
    exact ⟨_, rfl⟩
  obtain ⟨q, hq⟩ := hq
  obtain ⟨s', rest, p, parts, hs, hp, hrest, hnames, hdelivery⟩ := evalCompound?_eq_some hq
  cases hs
  cases hrest
  rw [h, Option.some.injEq] at hp
  subst hp
  exact ⟨q, hq, hnames, hdelivery⟩

end

end LazyQuery.Sql
