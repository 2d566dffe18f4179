import LazyQuery.Proofs.Sql.Select
import LazyQuery.Proofs.Table.SameRows

/-!
# Joins, in memory and as queries

A join of two relations that hold tables holds the join of the tables, its rows in the order of the plan
(`join_holds`). Two rows meet the condition of the query just if their keys are the same and no part of
them is missing (`areMatched_eq`), so that the pairs of rows are those that a join in memory finds
(`joinRows_eq`).
-/

set_option autoImplicit false

namespace LazyQuery

open Sql

namespace Sql

/-- The pairs of columns that a join compares. -/
def joinPairs (left right : String) (leftOn rightOn : List String) : List (Expr × Expr) :=
  (leftOn.zip rightOn).map fun (l, r) => (.column left l, .column right r)

/-- A pair of rows as a row of a join. A missing right row is one of nulls. -/
def joinedRow (l r : Table) (width : Nat) (p : Nat × Option Nat) : List Datum :=
  storedRow l p.1 ++ p.2.elim (List.replicate width .null) (storedRow r)

variable {left right : String} {s s' : Schema} {lr rr : Relation} {l r : Table} {scope : Scope}
  {leftOn rightOn : List String} {how : JoinType} {catalog : Catalog} {asked : Bool}

/-! ## Rows that match -/

/-- Are two cells equal, neither of them being missing? -/
def cellsMatch (x y : Scalar) : Bool :=
  !x.isNull && !y.isNull && Datum.ofScalar x == Datum.ofScalar y

theorem all_cellsMatch_iff {xs ys : List Scalar} (h : xs.length = ys.length) :
    ((xs.zip ys).all fun p => cellsMatch p.1 p.2) = true ↔ xs.any Scalar.isNull = false ∧
      ys.any Scalar.isNull = false ∧ xs.map Datum.ofScalar = ys.map Datum.ofScalar := by
  induction xs generalizing ys with
  | nil =>
    cases ys with
    | nil => simp
    | cons => simp at h
  | cons x xs ih =>
    cases ys with
    | nil => simp at h
    | cons y ys =>
      rw [List.zip_cons_cons, List.all_cons, Bool.and_eq_true, ih (by simpa using h)]
      simp only [cellsMatch, Bool.and_eq_true, Bool.not_eq_true', beq_iff_eq, List.any_cons,
        Bool.or_eq_false_iff, List.map_cons, List.cons.injEq]
      tauto

/-- Keys that can be joined on: they exist, and their values can be compared. -/
def JoinsOn (s s' : Schema) (a b : String) : Prop :=
  ∃ f g, s.field? a = some f ∧ s'.field? b = some g ∧ f.type.comparableWith g.type = true

/-- **The keys of two rows are the same if their cells match**, one by one. -/
theorem areMatched_eq (hl : l.Conforms s) (hr : r.Conforms s')
    (h : List.Forall₂ (JoinsOn s s') leftOn rightOn) (i j : Nat) :
    l.areMatched r leftOn rightOn i j =
      (leftOn.zip rightOn).all fun p => cellsMatch (l.cell p.1 i) (r.cell p.2 j) := by
  have plain : (∀ v ∈ leftOn.map fun n => l.cell n i, v.isPlain = true) ∧
      ∀ v ∈ rightOn.map fun n => r.cell n j, v.isPlain = true := by
    induction h with
    | nil => simp
    | @cons a b _ _ hab _ ih =>
      obtain ⟨f, g, hf, hg, -⟩ := hab
      rw [List.map_cons, List.map_cons, List.forall_mem_cons, List.forall_mem_cons]
      exact ⟨⟨DataType.isPlain_of_admits (hl.admits_cell hf i), ih.1⟩,
        DataType.isPlain_of_admits (hr.admits_cell hg j), ih.2⟩
  have hlen : (leftOn.map fun n => l.cell n i).length = (rightOn.map fun n => r.cell n j).length := by
    simp [h.length_eq]
  have hkeys := Scalar.keyOf_eq_iff plain.1 plain.2 hlen
  have hall := all_cellsMatch_iff hlen
  rw [List.zip_map, List.all_map] at hall
  refine Bool.eq_iff_iff.2 (Iff.trans ?_ hall.symm)
  rw [Table.areMatched, Table.keyAt, Table.keyAt]
  generalize (leftOn.map fun n => l.cell n i) = xs, (rightOn.map fun n => r.cell n j) = ys at hkeys
  rw [← hkeys]
  cases xs.any Scalar.isNull <;> cases ys.any Scalar.isNull <;> simp
  exact eq_comm

/-- What a pair of columns is compared to in a join. -/
theorem holds_compare (hl : l.Conforms s) (hr : r.Conforms s') (hs : scope.Shows left s 0)
    (hs' : scope.Shows right s' s.fields.length) {row : List Datum} {i j : Nat}
    (hrow : RowShows row s 0 (l.cell · i)) (hrow' : RowShows row s' s.fields.length (r.cell · j))
    {a b : String} (h : JoinsOn s s' a b) :
    (Expr.compare .eq (.column left a) (.column right b)).holds scope row =
      cellsMatch (l.cell a i) (r.cell b j) := by
  obtain ⟨f, g, hf, hg, hfg⟩ := h
  have hx := hl.admits_cell hf i
  have hy := hr.admits_cell hg j
  have hpx := DataType.isPlain_of_admits hx
  have hpy := DataType.isPlain_of_admits hy
  rw [Expr.holds, Expr.eval, Expr.eval_column hs hrow hf, Expr.eval_column hs' hrow' hg,
    applyCompare_eq ((Expr.HasType.column hf).suits hs) ((Expr.HasType.column hg).suits hs') hx hy hfg,
    truth?_ofScalar (t := .boolean) rfl (by rw [Elementwise.compareCells]; split <;> rfl),
    Elementwise.compareCells, cellsMatch]
  have heq := Scalar.compare_eq_iff hpx hpy
  cases (l.cell a i).isNull <;> cases (r.cell b j).isNull <;> try rfl
  simp only [Bool.or_self, Bool.false_eq_true, if_false, Scalar.truth?, CompareOp.holds, Bool.not_false,
    Bool.and_self, Bool.true_and]
  refine Bool.eq_iff_iff.2 ?_
  simp [heq]

/-! ## The pairs of a join -/

theorem rowShows_joined (hl : l.Conforms s) (hn : s.names.Nodup) (hr : r.Conforms s')
    (hn' : s'.names.Nodup) (p : Nat × Option Nat) :
    RowShows (joinedRow l r s'.fields.length p) s 0 (l.cell · p.1) ∧
      RowShows (joinedRow l r s'.fields.length p) s' s.fields.length (r.cell? · p.2) := by
  refine ⟨rowShows_storedRow hl hn _ p.1, ?_⟩
  have hright : p.2.elim (List.replicate s'.fields.length .null) (storedRow r) =
      s'.names.map fun n => Datum.ofScalar (r.cell? n p.2) := by
    cases p.2 with
    | none =>
      rw [Option.elim_none]
      refine (List.eq_replicate_iff.2 ⟨by simp [Schema.names], fun d hd => ?_⟩).symm
      obtain ⟨n, -, rfl⟩ := List.mem_map.1 hd
      rfl
    | some j => exact storedRow_eq hr hn' j
  have hlen : (storedRow l p.1).length = s.fields.length := by
    rw [storedRow_eq hl hn, List.length_map, Schema.names, List.length_map]
  have h := rowShows_append (s := s') (storedRow l p.1) [] (r.cell? · p.2)
  rw [List.append_nil, hlen] at h
  rw [joinedRow, hright]
  exact h

/-- The rows that a row on the left becomes with the rows that match it, or without any. -/
def joinedWith (how : JoinType) (width : Nat) (a : List Datum) :
    List (List Datum) → List (List Datum)
  | [] => if how = .left then [a ++ List.replicate width .null] else []
  | bs => bs.map (a ++ ·)

/-- The rows of two relations joined are those of the pairs that match. -/
theorem joinRows_eq (hl : lr.Holds l s) (hr : rr.Holds r s') {isMatch : List Datum → List Datum → Bool}
    {matched : Nat → Nat → Bool} (h : ∀ i < l.rowCount, ∀ j < r.rowCount,
      isMatch (storedRow l i) (storedRow r j) = matched i j) :
    Input.joinRows how lr rr isMatch =
      .ofRows ((Table.pairsOf how l.rowCount r.rowCount matched).map
        (joinedRow l r s'.fields.length)) := by
  have hlrows : lr.rows = (List.range l.rowCount).map (storedRow l) := congrArg Delivery.rows hl.rows
  have hrrows : rr.rows = (List.range r.rowCount).map (storedRow r) := congrArg Delivery.rows hr.rows
  have hlb : lr.breaksOff = false := congrArg Delivery.breaksOff hl.rows
  have hrb : rr.breaksOff = false := congrArg Delivery.breaksOff hr.rows
  have hwidth : rr.columns.length = s'.fields.length := hr.headings.length_eq
  have hjoined : (lr.rows.flatMap fun a =>
      joinedWith how rr.columns.length a (rr.rows.filter (isMatch a))) =
        (Table.pairsOf how l.rowCount r.rowCount matched).map (joinedRow l r s'.fields.length) := by
    rw [hlrows, hrrows, hwidth, Table.pairsOf, List.flatMap_map, List.map_flatMap]
    refine List.flatMap_congr fun i hi => ?_
    have hfilter : ((List.range r.rowCount).map (storedRow r)).filter (isMatch (storedRow l i)) =
        ((List.range r.rowCount).filter (matched i)).map (storedRow r) := by
      rw [List.filter_map]
      exact congrArg _ (List.filter_congr fun j hj => h i (List.mem_range.1 hi) j (List.mem_range.1 hj))
    rw [hfilter]
    cases (List.range r.rowCount).filter (matched i) with
    | nil =>
      rw [List.map_nil, joinedWith]
      dsimp only
      split <;> rfl
    | cons j js =>
      rw [List.map_cons]
      dsimp only [joinedWith]
      rw [← List.map_cons (f := storedRow r), List.map_map, List.map_map]
      rfl
  refine Eq.trans ?_ (congrArg Delivery.ofRows hjoined)
  unfold Input.joinRows
  dsimp only
  cases Expected.isRightFirst how lr.expected? rr.expected? <;> simp [hlb, hrb] <;> rfl

/-! ## The condition of a join -/

/-- Do two rows meet the condition that tables are joined on? -/
def Input.isMet (l r : Relation) : Input → List Datum → List Datum → Bool
  | table _, _, _ => true
  | join left _ right rename? on, a, b =>
    let scope := Scope.ofRelation left l ++ Scope.ofRelation (rename?.getD right) r
    on.all fun (x, y) => (Expr.compare .eq x y).holds scope (a ++ b)

namespace Input

variable {label : String} {rename? : Option String}

/-- The condition that keys are equal, pair by pair. -/
theorem isMet_joinPairs (h : rename?.getD right = label) (a b : List Datum) :
    (join left how right rename? (joinPairs left label leftOn rightOn)).isMet lr rr a b =
      (leftOn.zip rightOn).all fun p =>
        (Expr.compare .eq (.column left p.1) (.column label p.2)).holds
          (Scope.ofRelation left lr ++ Scope.ofRelation label rr) (a ++ b) := by
  rw [isMet, joinPairs, List.all_map, h]
  rfl

/-- A query joins the rows that meet the condition, and its plan says in which order they come. -/
theorem eval?_join (h : rename?.getD right = label) (hl : catalog left = some lr)
    (hr : catalog right = some rr)
    (hscope : scope = Scope.ofRelation left lr ++ Scope.ofRelation label rr)
    (hfound : ∀ p ∈ leftOn.zip rightOn, (Expr.column left p.1).wellScoped scope = true ∧
      (Expr.column label p.2).wellScoped scope = true) :
    (join left how right rename? (joinPairs left label leftOn rightOn)).eval? catalog = some (scope,
      (joinRows how lr rr
        ((join left how right rename? (joinPairs left label leftOn rightOn)).isMet lr rr)).rearrange
          (catalog.plan.arrange catalog.place
            (join left how right rename? (joinPairs left label leftOn rightOn)))) := by
  have hon : ((joinPairs left label leftOn rightOn).all fun (a, b) =>
      a.wellScoped scope && b.wellScoped scope) = true := by
    rw [joinPairs, List.all_map, List.all_eq_true]
    exact fun p hp => Bool.and_eq_true_iff.2 (hfound p hp)
  subst hscope h
  rw [eval?, hl, hr]
  dsimp only [Option.bind_eq_bind, Option.bind_some]
  rw [hon]
  rfl

end Input

/-! ## The query of a join -/

/-- The name under which the right side of a join is read. -/
def rightLabel (left right : Node) : String :=
  if left.id == right.id then right.name ++ "_rhs" else right.name

variable {ln rn : Node} {layout : JoinLayout} {outer : Bool}

theorem getD_rightLabel (ln rn : Node) :
    (if (ln.id == rn.id) = true then some (rightLabel ln rn) else none).getD rn.name =
      rightLabel ln rn := by
  rw [rightLabel]
  split <;> rfl

/-- What the query of a join reads, and the condition that it is written with. -/
theorem input?_joinSelect (ln rn : Node) (leftOn rightOn : List String) (how : JoinType)
    (layout : JoinLayout) : (Graph.joinSelect ln rn leftOn rightOn how layout).input? =
      some (.join ln.name how rn.name (if ln.id == rn.id then some (rightLabel ln rn) else none)
        (joinPairs ln.name (rightLabel ln rn) leftOn rightOn)) := rfl

/-- The result columns that come from one side, under the names that the layout gives them. -/
theorem fits_joined {table : String} {sources : List (String × String)} {fields : List Field}
    (h : List.Forall₂ (fun p f => ∃ g, s.field? p.1 = some g ∧ f.name = p.2 ∧ f.type = g.type)
      sources fields) :
    List.Forall₂ (fun (i : Item) f => i.Fits table s f)
      (sources.map fun p => ⟨.column table p.1, some p.2⟩) fields := by
  rw [List.forall₂_map_left_iff]
  refine h.imp fun p f hf => ?_
  obtain ⟨g, hg, hname, htype⟩ := hf
  rw [← hname]
  exact .renamed hg htype

/-- The query of a join, whatever rows the two relations have. -/
theorem join_eval? (how : JoinType) (asked : Bool) (hc : catalog ln.name = some lr) (hc' : catalog rn.name = some rr)
    (hl : List.Forall₂ Heading.Fits lr.columns ln.schema.fields)
    (hr : List.Forall₂ Heading.Fits rr.columns rn.schema.fields) (ha : ln.schema.Apart)
    (ha' : rn.schema.Apart)
    (hmake : JoinLayout.make ln.schema rn.schema leftOn rightOn outer = .ok layout)
    (hne : sameName ln.name (rightLabel ln rn) = false) :
    ∃ r' scope arrange, (∀ rows : List (List Datum), (arrange rows).Perm rows) ∧
      (Graph.joinSelect ln rn leftOn rightOn how layout).eval? catalog asked = some r' ∧
      List.Forall₂ Heading.Fits r'.columns layout.schema.fields ∧ r'.numbers? = none ∧
      scope.Shows ln.name ln.schema 0 ∧
      scope.Shows (rightLabel ln rn) rn.schema ln.schema.fields.length ∧
      (Graph.joinSelect ln rn leftOn rightOn how layout).IsPlain scope ∧
      r'.toDelivery = (Graph.joinSelect ln rn leftOn rightOn how layout).delivery scope asked
        ((Input.joinRows how lr rr fun a b => (leftOn.zip rightOn).all fun p =>
          (Expr.compare .eq (.column ln.name p.1) (.column (rightLabel ln rn) p.2)).holds scope
            (a ++ b)).rearrange arrange) := by
  obtain ⟨-, -, hlOn, hrOn, -, left, right, hfields, hleft, hright⟩ :=
    Table.layout_spec hmake ha.nodup ha'.nodup
  have hshows := shows_join hl hr ha ha' hne
  generalize hscope : Scope.ofRelation ln.name lr ++ Scope.ofRelation (rightLabel ln rn) rr = scope at hshows
  have hfound : ∀ p ∈ leftOn.zip rightOn, (Expr.column ln.name p.1).wellScoped scope = true ∧
      (Expr.column (rightLabel ln rn) p.2).wellScoped scope = true := by
    intro p hp
    obtain ⟨f, hf⟩ := Schema.field?_isSome (hlOn p.1 (List.of_mem_zip hp).1)
    obtain ⟨g, hg⟩ := Schema.field?_isSome (hrOn p.2 (List.of_mem_zip hp).2)
    exact ⟨(Expr.HasType.column hf).found hshows.1, (Expr.HasType.column hg).found hshows.2⟩
  have hitems : List.Forall₂ (fun (i : Item) f => i.expr.isAggregate = false ∧
      i.expr.wellScoped scope = true ∧ i.expr.isRefused scope = false ∧
        ∀ sel : Select, (sel.heading scope asked i).Fits f)
      (Graph.joinSelect ln rn leftOn rightOn how layout).items layout.schema.fields := by
    have fits {table : String} {s : Schema} {k : Nat} (h : scope.Shows table s k) {i : Item} {f : Field}
        (hi : i.Fits table s f) : i.expr.isAggregate = false ∧ i.expr.wellScoped scope = true ∧
          i.expr.isRefused scope = false ∧ ∀ sel : Select, (sel.heading scope asked i).Fits f :=
      ⟨hi.hasType.single, hi.hasType.found h, hi.hasType.computed h, fun sel =>
        ⟨hi.name h, hi.hasType.suits h, by
          rw [Select.heading, hi.hasType.computed h, Bool.and_false]⟩⟩
    rw [hfields]
    exact List.rel_append ((fits_joined hleft).imp fun _ _ => fits hshows.1)
      ((fits_joined hright).imp fun _ _ => fits hshows.2)
  have hplain : (Graph.joinSelect ln rn leftOn rightOn how layout).IsPlain scope := by
    refine ⟨rfl, rfl, fun i hi => ?_, fun c hc => (by cases hc), fun k hk => (by cases hk)⟩
    obtain ⟨j, hj, rfl⟩ := List.getElem_of_mem hi
    have h := hitems.get hj (hitems.length_eq ▸ hj)
    exact ⟨h.1, h.2.1, h.2.2.1⟩
  generalize hinput : Input.join ln.name how rn.name
    (if ln.id == rn.id then some (rightLabel ln rn) else none)
      (joinPairs ln.name (rightLabel ln rn) leftOn rightOn) = input
  have hin : (Graph.joinSelect ln rn leftOn rightOn how layout).reads? catalog = some (scope,
      (Input.joinRows how lr rr fun a b => (leftOn.zip rightOn).all fun p =>
        (Expr.compare .eq (.column ln.name p.1) (.column (rightLabel ln rn) p.2)).holds scope
          (a ++ b)).rearrange (catalog.plan.arrange catalog.place input)) := by
    rw [Select.reads?, input?_joinSelect]
    dsimp only
    rw [Input.eval?_join (getD_rightLabel ln rn) hc hc' hscope.symm hfound, hinput]
    refine congrArg (fun m => some (scope, (Input.joinRows how lr rr m).rearrange _)) ?_
    funext a b
    rw [← hinput, Input.isMet_joinPairs (getD_rightLabel ln rn), hscope]
  obtain ⟨r', hr', hcolumns, hdelivery, hnumbers⟩ := Select.eval?_isSome asked hin hplain.wellFormed
  refine ⟨r', scope, _, catalog.plan.arrange_perm _ _, hr', ?_, hnumbers, hshows.1, hshows.2, hplain,
    hdelivery⟩
  rw [hcolumns, List.forall₂_map_left_iff]
  exact hitems.imp fun i f h => h.2.2.2 _

/-- **The query of a join holds the join of the tables**, its rows in some order. -/
theorem join_holds (asked : Bool) (hc : catalog ln.name = some lr) (hc' : catalog rn.name = some rr)
    (hl : lr.Holds l ln.schema) (hr : rr.Holds r rn.schema) (hlt : l.Conforms ln.schema)
    (hrt : r.Conforms rn.schema) (ha : ln.schema.Apart) (ha' : rn.schema.Apart)
    (hd : ln.schema.Distinct) (hd' : rn.schema.Distinct)
    (hmake : JoinLayout.make ln.schema rn.schema leftOn rightOn outer = .ok layout)
    (hon : List.Forall₂ (JoinsOn ln.schema rn.schema) leftOn rightOn)
    (hfields : layout.schema.fields ≠ [])
    (hne : sameName ln.name (rightLabel ln rn) = false) :
    ∃ u order r', l.join r leftOn rightOn how layout = .ok u ∧ u.Conforms layout.schema ∧
      order.Perm (List.range u.rowCount) ∧
      (Graph.joinSelect ln rn leftOn rightOn how layout).eval? catalog asked = some r' ∧
        r'.Holds (u.take order) layout.schema := by
  obtain ⟨columns, hjoin, hconf, hrows⟩ := Table.join_ok how hlt hrt hd hd' hmake hfields rfl
  obtain ⟨r', scope, arrange, harrange, hr', hh, hn, hs, hs', hplain, hdelivery⟩ := join_eval? how asked
    hc hc' hl.headings hr.headings ha ha' hmake hne
  generalize hpairs : Table.pairsOf how l.rowCount r.rowCount (l.areMatched r leftOn rightOn) = pairs
    at hconf hrows
  have hcount : (Table.mk columns).rowCount = pairs.length := Table.Conforms.rowCount_eq hconf hfields
  have hshown := rowShows_joined hlt ha.nodup hrt ha'.nodup
  have hmatch : ∀ i < l.rowCount, ∀ j < r.rowCount, ((leftOn.zip rightOn).all fun p =>
      (Expr.compare .eq (.column ln.name p.1) (.column (rightLabel ln rn) p.2)).holds scope
        (storedRow l i ++ storedRow r j)) = l.areMatched r leftOn rightOn i j := by
    intro i _ j _
    rw [areMatched_eq hlt hrt hon, Bool.eq_iff_iff, List.all_eq_true, List.all_eq_true]
    refine forall₂_congr fun p hp => ?_
    obtain ⟨k, hk, rfl⟩ := List.getElem_of_mem hp
    rw [List.length_zip] at hk
    rw [List.getElem_zip]
    exact iff_of_eq (congrArg (· = true) (holds_compare hlt hrt hs hs' (hshown (i, some j)).1
      (hshown (i, some j)).2 (hon.get (by omega) (by omega))))
  -- The rows of the join stand for pairs, which are counted off.
  have hjoined := harrange (pairs.map (joinedRow l r rn.schema.fields.length))
  have hcounted : pairs = (List.range pairs.length).map (pairs.getD · (0, none)) :=
    List.ext_getElem (by simp) fun i hi _ => by simp [hi]
  rw [hcounted, List.map_map] at hjoined
  obtain ⟨order, horder, harranged⟩ := exists_perm_of_perm_map hjoined
  rw [← List.map_map, ← hcounted, ← List.map_map] at harranged
  refine ⟨_, order, r', hjoin, Table.conforms_of_columns hconf hfields, hcount ▸ horder, hr',
    .of_rows hh hn ?_⟩
  have hne : columns ≠ [] := fun h => hfields (List.eq_nil_of_length_eq_zero
    (hconf.length_eq.symm.trans (by rw [h]; rfl)))
  have hrow : ∀ i ∈ order, (Table.mk columns).row i =
      layout.left.map (fun q => l.cell q.1 (pairs.getD i (0, none)).1) ++
        layout.right.map fun q => r.cell? q.1 (pairs.getD i (0, none)).2 := by
    intro i hi
    have hlt : i < pairs.length := List.mem_range.1 (horder.mem_iff.1 hi)
    have := congrArg (·[i]?) hrows
    simpa [Table.rows, hcount, hlt] using this
  obtain ⟨-, -, -, -, -, left, right, hfields', hleft, hright⟩ :=
    Table.layout_spec hmake ha.nodup ha'.nodup
  rw [hdelivery, joinRows_eq hl hr hmatch, hpairs, Delivery.rearrange, Delivery.ofRows, harranged]
  change Select.delivery _ _ _ (.ofRows _) = _
  rw [hplain.delivery, Select.plainRows_eq_map rfl rfl rfl, Table.rows_take hne,
    List.map_congr_left hrow, List.map_map, List.map_map, List.map_map]
  refine congrArg Delivery.ofRows (List.map_congr_left fun i _ => ?_)
  simp only [Function.comp]
  generalize pairs.getD i (0, none) = p
  have side {table : String} {s : Schema} {k : Nat} {cell : String → Scalar}
      {sources : List (String × String)} {fields : List Field} (h : scope.Shows table s k)
      (hrow : RowShows (joinedRow l r rn.schema.fields.length p) s k cell)
      (hsources : List.Forall₂ (fun p f => ∃ g, s.field? p.1 = some g ∧ f.name = p.2 ∧ f.type = g.type)
        sources fields) :
      (sources.map fun q => (Expr.column table q.1).eval scope (joinedRow l r rn.schema.fields.length p)) =
        sources.map fun q => Datum.ofScalar (cell q.1) := by
    refine List.map_congr_left fun q hq => ?_
    obtain ⟨k, hk, rfl⟩ := List.getElem_of_mem hq
    obtain ⟨g, hg, -⟩ := hsources.get hk (hsources.length_eq ▸ hk)
    exact Expr.eval_column h hrow hg
  have hitems : (Graph.joinSelect ln rn leftOn rightOn how layout).items =
      layout.left.map (fun q => ⟨.column ln.name q.1, some q.2⟩) ++
        layout.right.map fun q => ⟨.column (rightLabel ln rn) q.1, some q.2⟩ := rfl
  simp only [hitems, List.map_append, List.map_map]
  exact congr (congrArg _ (side hs (hshown p).1 hleft)) (side hs' (hshown p).2 hright)

end Sql
end LazyQuery
