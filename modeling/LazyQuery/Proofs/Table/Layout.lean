import LazyQuery.Proofs.Table.Conforms
import LazyQuery.Schema.Join

/-!
# Layouts of joins

A layout that was made is the one that the schemas and the keys call for (`JoinLayout.uncheckedOf`), with
all that was checked on the way (`JoinLayout.make_eq_ok`).
-/

set_option autoImplicit false

namespace LazyQuery.JoinLayout

variable {l r : Schema} {leftOn rightOn : List String} {outer : Bool} {layout : JoinLayout}

/-- Is the name that of a key which is one column in the result: one that has it on both sides? -/
def IsMerged (leftOn rightOn : List String) (name : String) : Prop := (name, name) ∈ leftOn.zip rightOn

instance (leftOn rightOn : List String) (name : String) : Decidable (IsMerged leftOn rightOn name) :=
  inferInstanceAs (Decidable (_ ∈ _))

theorem mem_mergedKeys {name : String} :
    name ∈ mergedKeys leftOn rightOn ↔ IsMerged leftOn rightOn name := by
  simp [mergedKeys, IsMerged]

/-- Is the name one of both sides, and not that of a merged key? -/
def IsAmbiguous (l r : Schema) (leftOn rightOn : List String) (name : String) : Prop :=
  name ∈ l.names ∧ name ∈ r.names ∧ ¬ IsMerged leftOn rightOn name

instance (l r : Schema) (leftOn rightOn : List String) (name : String) :
    Decidable (IsAmbiguous l r leftOn rightOn name) :=
  inferInstanceAs (Decidable (_ ∧ _))

/-- The name of a column in the result. -/
def outputName (l r : Schema) (leftOn rightOn : List String) (suffix name : String) : String :=
  if IsAmbiguous l r leftOn rightOn name then name ++ suffix else name

/-- The layout of two schemas and paired keys, whether or not a name is repeated. -/
def uncheckedOf (l r : Schema) (leftOn rightOn : List String) (outer : Bool) : JoinLayout :=
  let kept := r.fields.filter fun f => ¬ IsMerged leftOn rightOn f.name
  { left := l.fields.map fun f => (f.name, outputName l r leftOn rightOn leftSuffix f.name)
    right := kept.map fun f => (f.name, outputName l r leftOn rightOn rightSuffix f.name)
    schema := ⟨(l.fields.map fun f =>
        { f with name := outputName l r leftOn rightOn leftSuffix f.name }) ++
      kept.map fun f => { f with
        name := outputName l r leftOn rightOn rightSuffix f.name
        nullable := f.nullable || outer }⟩ }

theorem names_uncheckedOf (l r : Schema) (leftOn rightOn : List String) (outer : Bool) :
    (uncheckedOf l r leftOn rightOn outer).schema.names =
      (uncheckedOf l r leftOn rightOn outer).left.map (·.2) ++
        (uncheckedOf l r leftOn rightOn outer).right.map (·.2) := by
  simp [uncheckedOf, Schema.names, Function.comp_def]

/-- Making a layout is checking the keys, and then the names of the layout that they call for. -/
theorem make_eq (l r : Schema) (leftOn rightOn : List String) (outer : Bool) :
    JoinLayout.make l r leftOn rightOn outer = (do
      if leftOn.isEmpty || leftOn.length != rightOn.length then
        throw (.unpairedJoinKeys leftOn.length rightOn.length)
      l.require leftOn
      r.require rightOn
      match firstRepeated [] (uncheckedOf l r leftOn rightOn outer).schema.names with
      | some name => throw (.duplicateJoinColumn name)
      | none => pure (uncheckedOf l r leftOn rightOn outer)) := by
  have hmerged (name : String) : (mergedKeys leftOn rightOn).contains name =
      decide (IsMerged leftOn rightOn name) := by
    rw [List.contains_eq_mem, decide_eq_decide, mem_mergedKeys]
  have hcontains (s : Schema) (name : String) : s.contains name = decide (name ∈ s.names) := by
    rw [Bool.eq_iff_iff, Schema.contains_iff, decide_eq_true_iff]
  have hkept : (fun f : Field => !(mergedKeys leftOn rightOn).contains f.name) =
      fun f => decide (¬ IsMerged leftOn rightOn f.name) :=
    funext fun f => by rw [hmerged, decide_not]
  have houtput (suffix name : String) : (if (!(mergedKeys leftOn rightOn).contains name &&
      l.contains name && r.contains name) = true then name ++ suffix else name) =
        outputName l r leftOn rightOn suffix name := by
    rw [outputName]
    refine if_congr ?_ rfl rfl
    rw [hmerged, hcontains, hcontains, IsAmbiguous]
    simp only [Bool.and_eq_true, Bool.not_eq_true', decide_eq_true_eq, decide_eq_false_iff_not]
    tauto
  simp only [make, houtput, hkept]
  rfl

/-- **When a layout is made, and which**: the keys are paired columns of the two sides, and no two columns
of the result have one name. -/
theorem make_eq_ok : JoinLayout.make l r leftOn rightOn outer = .ok layout ↔
    leftOn ≠ [] ∧ leftOn.length = rightOn.length ∧ (∀ n ∈ leftOn, n ∈ l.names) ∧
      (∀ n ∈ rightOn, n ∈ r.names) ∧ layout.schema.names.Nodup ∧
        layout = uncheckedOf l r leftOn rightOn outer := by
  simp only [make_eq, throw_eq_error, error_bind, ite_error_eq_ok, bind_eq_ok, Bool.or_eq_true, not_or,
    List.isEmpty_iff, bne_iff_ne, ne_eq, not_not]
  constructor
  · rintro ⟨⟨hne, hlen⟩, ⟨⟩, hl, ⟨⟩, hr, h⟩
    split at h
    · cases h
    · rename_i hnone
      obtain rfl := Except.ok.inj h
      exact ⟨hne, hlen, Schema.require_eq_ok.1 hl, Schema.require_eq_ok.1 hr,
        Schema.firstRepeated_nil_eq_none.1 hnone, rfl⟩
  · rintro ⟨hne, hlen, hl, hr, hnodup, rfl⟩
    refine ⟨⟨hne, hlen⟩, (), Schema.require_eq_ok.2 hl, (), Schema.require_eq_ok.2 hr, ?_⟩
    rw [Schema.firstRepeated_nil_eq_none.2 hnodup]
    rfl

variable (h : JoinLayout.make l r leftOn rightOn outer = .ok layout)
include h

theorem eq_of_make : layout = uncheckedOf l r leftOn rightOn outer := (make_eq_ok.1 h).2.2.2.2.2

theorem nodup_of_make : layout.schema.names.Nodup := (make_eq_ok.1 h).2.2.2.2.1

theorem names_of_make : layout.schema.names = layout.left.map (·.2) ++ layout.right.map (·.2) := by
  obtain rfl := eq_of_make h
  exact names_uncheckedOf l r leftOn rightOn outer

/-- The columns of a join are columns of its sides, and so are the keys that it pairs. -/
theorem sources_of_make :
    (∀ p ∈ layout.left, p.1 ∈ l.names) ∧ (∀ p ∈ layout.right, p.1 ∈ r.names) ∧
      (∀ c ∈ leftOn, c ∈ l.names) ∧ ∀ c ∈ rightOn, c ∈ r.names := by
  obtain ⟨-, -, hl, hr, -, rfl⟩ := make_eq_ok.1 h
  refine ⟨fun p hp => ?_, fun p hp => ?_, hl, hr⟩ <;> obtain ⟨f, hf, rfl⟩ := List.mem_map.1 hp
  · exact List.mem_map_of_mem hf
  · exact List.mem_map_of_mem (List.mem_filter.1 hf).1

/-- The columns of a join are those of the two sides under new names, and an outer join can leave the
right ones without a value. -/
theorem fields_of_make (hl : l.names.Nodup) (hr : r.names.Nodup) :
    ∃ left right, layout.schema.fields = left ++ right ∧
      List.Forall₂ (fun p f => ∃ g, l.field? p.1 = some g ∧ f = { g with name := p.2 })
        layout.left left ∧
      List.Forall₂ (fun p f => ∃ g, r.field? p.1 = some g ∧
        f = { g with name := p.2, nullable := g.nullable || outer }) layout.right right := by
  obtain rfl := eq_of_make h
  refine ⟨_, _, rfl, ?_, ?_⟩ <;> rw [uncheckedOf, List.forall₂_map_left_iff, List.forall₂_map_right_iff] <;>
    refine List.forall₂_same.2 fun f hf => ⟨f, Schema.field?_of_mem ?_ ?_, rfl⟩
  · exact hl
  · exact hf
  · exact hr
  · exact (List.mem_filter.1 hf).1

end LazyQuery.JoinLayout
