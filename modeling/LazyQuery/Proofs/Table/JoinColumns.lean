import LazyQuery.Proofs.Table.Layout
import LazyQuery.Proofs.Table.NestedLoop

/-!
# The columns of a join

A layout that is made for two schemas covers them (`JoinLayout.Covers`): every column of the left one and
every column of the right one that is not merged stands in it once, in order, under a name that no other
column of the result has. It is also all that a join needs to know. Tables with the columns of the two
schemas are joined by it, whatever else they hold, and have the columns that it names
(`JoinLayout.covers_and_joins_of_make`).
-/

set_option autoImplicit false

namespace LazyQuery.JoinLayout

/-- The layout covers the columns of two schemas that are joined on paired keys. -/
structure Covers (layout : JoinLayout) (l r : Schema) (leftOn rightOn : List String) (outer : Bool) :
    Prop where
  /-- No two columns of the result have one name. -/
  distinct : layout.schema.names.Nodup
  names : layout.schema.names = layout.outputs
  left : layout.left.map (·.1) = l.names
  right : layout.right.map (·.1) = r.names.filter fun n => ¬ IsMerged leftOn rightOn n
  leftOutput : ∀ p ∈ layout.left,
    p.2 = if IsAmbiguous l r leftOn rightOn p.1 then p.1 ++ "_x" else p.1
  rightOutput : ∀ p ∈ layout.right,
    p.2 = if IsAmbiguous l r leftOn rightOn p.1 then p.1 ++ "_y" else p.1
  /-- The fields are those of the columns, and can be null on the right if the join is an outer one. -/
  fields : ∃ left right, layout.schema.fields = left ++ right ∧
    List.Forall₂ (fun p f => ∃ g, l.field? p.1 = some g ∧ f = { g with name := p.2 }) layout.left left ∧
    List.Forall₂ (fun p f => ∃ g, r.field? p.1 = some g ∧
      f = { g with name := p.2, nullable := g.nullable || outer }) layout.right right

variable {l r : Schema} {leftOn rightOn : List String} {outer : Bool} {layout : JoinLayout}

theorem covers_of_make (hl : l.names.Nodup) (hr : r.names.Nodup)
    (h : JoinLayout.make l r leftOn rightOn outer = .ok layout) :
    layout.Covers l r leftOn rightOn outer where
  distinct := nodup_of_make h
  names := names_of_make h
  left := by
    obtain rfl := eq_of_make h
    simp [uncheckedOf, Schema.names]
  right := by
    obtain rfl := eq_of_make h
    simp [uncheckedOf, Schema.names, List.filter_map, Function.comp_def]
  leftOutput := by
    obtain rfl := eq_of_make h
    exact List.forall_mem_map.2 fun f _ => rfl
  rightOutput := by
    obtain rfl := eq_of_make h
    exact List.forall_mem_map.2 fun f _ => rfl
  fields := fields_of_make h hl hr

/-- Tables that have the columns of the schemas are joined by a layout that was made. -/
theorem join_of_make (h : JoinLayout.make l r leftOn rightOn outer = .ok layout) (how : JoinType)
    {t u : Table} (ht : ∀ n ∈ l.names, n ∈ t.names) (hu : ∀ n ∈ r.names, n ∈ u.names) :
    ∃ v, t.join u leftOn rightOn how layout = .ok v ∧ v.Valid ∧ v.names = layout.schema.names := by
  obtain ⟨hne, hlen, -⟩ := make_eq_ok.1 h
  obtain ⟨hleft, hright, hleftOn, hrightOn⟩ := sources_of_make h
  have hnames : layout.schema.names = layout.outputs := names_of_make h
  obtain ⟨v, hv, hvalid, hvnames, -⟩ := (Table.join_eq_nestedLoop how t u layout hne hlen
    (fun n hn => ht n (hleftOn n hn)) (fun n hn => hu n (hrightOn n hn))
    (fun p hp => ht _ (hleft p hp)) fun p hp => hu _ (hright p hp)).2 (hnames ▸ nodup_of_make h)
  exact ⟨v, hv, hvalid, hvnames.trans hnames.symm⟩

/-- **A layout that is made covers the columns of both sides**, and tables that have them are joined by
it: the join is a table with just the columns that the layout names. -/
theorem covers_and_joins_of_make (hl : l.names.Nodup) (hr : r.names.Nodup)
    (h : JoinLayout.make l r leftOn rightOn outer = .ok layout) :
    layout.Covers l r leftOn rightOn outer ∧
      ∀ (how : JoinType) (t u : Table), t.Valid → u.Valid → (∀ n ∈ l.names, n ∈ t.names) →
        (∀ n ∈ r.names, n ∈ u.names) →
          ∃ v, t.join u leftOn rightOn how layout = .ok v ∧ v.Valid ∧ v.names = layout.schema.names :=
  ⟨covers_of_make hl hr h, fun how _ _ _ _ ht hu => join_of_make h how ht hu⟩

/-- One key that is merged, one pair of keys that is not, and a column on both sides. The right table has
a column that its schema does not mention. -/
theorem covers_and_joins_of_make_overlap :
    let l : Schema := ⟨[⟨"k", .int64, false⟩, ⟨"a", .int64, false⟩, ⟨"v", .utf8, false⟩]⟩
    let r : Schema := ⟨[⟨"v", .utf8, false⟩, ⟨"k", .int64, false⟩, ⟨"b", .int64, true⟩]⟩
    let layout := uncheckedOf l r ["k", "a"] ["k", "b"] true
    let t : Table := ⟨[⟨"k", [.int 1]⟩, ⟨"a", [.int 2]⟩, ⟨"v", [.text "p"]⟩]⟩
    let u : Table := ⟨[⟨"b", [.int 2]⟩, ⟨"k", [.int 1]⟩, ⟨"v", [.text "q"]⟩, ⟨"w", [.null]⟩]⟩
    layout.Covers l r ["k", "a"] ["k", "b"] true ∧
      layout.left = [("k", "k"), ("a", "a"), ("v", "v_x")] ∧
      layout.right = [("v", "v_y"), ("b", "b")] ∧
      layout.schema.fields.map (·.nullable) = [false, false, false, true, true] ∧
      ∃ v, t.join u ["k", "a"] ["k", "b"] .left layout = .ok v ∧
        v.names = ["k", "a", "v_x", "v_y", "b"] := by
  intro l r layout t u
  have hmake : JoinLayout.make l r ["k", "a"] ["k", "b"] true = .ok layout := by decide
  obtain ⟨hcovers, hjoins⟩ := covers_and_joins_of_make (by decide) (by decide) hmake
  refine ⟨hcovers, by decide, by decide, by decide, ?_⟩
  obtain ⟨v, hv, -, hnames⟩ := hjoins .left t u ⟨by decide, by decide⟩ ⟨by decide, by decide⟩ (by decide)
    (by decide)
  exact ⟨v, hv, hnames.trans (by decide)⟩

end LazyQuery.JoinLayout
