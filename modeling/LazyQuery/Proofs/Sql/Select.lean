import LazyQuery.Proofs.Sql.Expression
import LazyQuery.Proofs.Table.Rows
import Mathlib.Data.List.TakeWhile

/-!
# Queries without groups

A `SELECT` that has no groups, no aggregates and no limit, and in which every name exists and nothing
is refused, can be evaluated row by row (`Select.IsPlain.delivery`). `Select.Over.eval?_rows` says under
which headings, for a query over a relation that holds a table. The lemmas on `Select.plainRows` say which
rows it yields, and `Relation.Holds.of_rows` that they are those of a table.
-/

set_option autoImplicit false

namespace LazyQuery.Sql

/-! ## Deliveries of all rows -/

namespace Delivery

variable {α β : Type}

@[simp] theorem rows_ofRows (rows : List α) : (ofRows rows).rows = rows := rfl

@[simp] theorem breaksOff_ofRows (rows : List α) : (ofRows rows).breaksOff = false := rfl

@[simp] theorem filter_ofRows (rows : List α) (test : α → Bool) :
    (ofRows rows).filter test = ofRows (rows.filter test) := rfl

@[simp] theorem map_ofRows (rows : List α) (make : α → β) :
    (ofRows rows).map make = ofRows (rows.map make) := rfl

@[simp] theorem gather_ofRows (rows : List α) (make : List α → List β) :
    (ofRows rows).gather make = ofRows (make rows) := rfl

@[simp] theorem barring_false (d : Delivery α) : d.barring false = d := rfl

theorem filterMapWhile_ofRows {rows : List α} {make : α → Option β} {f : α → β}
    (h : ∀ x ∈ rows, make x = some (f x)) : (ofRows rows).filterMapWhile make = ofRows (rows.map f) := by
  have hmade : rows.map make = (rows.map f).map some := by
    rw [List.map_map]
    exact List.map_congr_left h
  have hfront : ((rows.map f).map some).takeWhile Option.isSome = (rows.map f).map some :=
    List.takeWhile_eq_self_iff.2 (by simp)
  simp only [filterMapWhile, rows_ofRows, breaksOff_ofRows, hmade, hfront, List.filterMap_map]
  simp [ofRows]

theorem filterMapWhile_map {γ : Type} (rows : List γ) (f : γ → α) (make : α → Option β) :
    (ofRows (rows.map f)).filterMapWhile make = (ofRows rows).filterMapWhile (make ∘ f) := by
  simp only [filterMapWhile, rows_ofRows, breaksOff_ofRows, List.map_map]
  rfl

end Delivery

/-- A value for each element is had if each of them has one. -/
theorem mapM_eq_some_of_forall₂ {α β : Type} {f : α → Option β} {xs : List α} {ys : List β}
    (h : List.Forall₂ (fun x y => f x = some y) xs ys) : xs.mapM f = some ys := by
  induction h with
  | nil => rfl
  | cons hx _ ih => rw [List.mapM_cons, hx, ih]; rfl

theorem mapM_eq_some {α β : Type} {xs : List α} {make : α → Option β} {f : α → β}
    (h : ∀ x ∈ xs, make x = some (f x)) : xs.mapM make = some (xs.map f) :=
  mapM_eq_some_of_forall₂ (List.forall₂_map_right_iff.2 (List.forall₂_same.2 h))

theorem Expr.evalGroup?_single {e : Expr} (h : e.isAggregate = false) (scope : Scope)
    (row : List Datum) : e.evalGroup? scope [row] = some (e.eval scope row) := by
  cases e <;> first | rfl | exact absurd h.symm Bool.false_ne_true

namespace Select

variable {s : Select} {scope : Scope} {catalog : Catalog} {asked : Bool} {rows : List (List Datum)}

/-- A query of one table reads its rows, each with its number. -/
theorem reads?_table {table : String} {r : Relation} (h : s.input? = some (.table table))
    (hc : catalog table = some r) :
    s.reads? catalog = some (Scope.ofNumbered table r, r.numberedRows) := by
  rw [reads?, h]
  dsimp only
  rw [Input.eval?, hc]
  rfl

/-- A query in which all names exist has a result, whatever rows it reads. -/
theorem eval?_isSome (asked : Bool) {input : Delivery (List Datum)}
    (hin : s.reads? catalog = some (scope, input))
    (hw : s.wellFormed scope = true) : ∃ r, s.eval? catalog asked = some r ∧
      r.columns = s.items.map (s.heading scope asked) ∧
        r.toDelivery = s.delivery scope asked input ∧ r.numbers? = none := by
  rw [eval?, hin]
  change ∃ r, (if !s.wellFormed scope then none else some _) = some r ∧ _
  rw [hw, if_neg (by simp)]
  exact ⟨_, rfl, rfl, rfl, rfl⟩

/-- The `SELECT` goes row by row, and can be computed for each. -/
structure IsPlain (s : Select) (scope : Scope) : Prop where
  ungrouped : s.groupBy = []
  unlimited : s.limit? = none
  items : ∀ i ∈ s.items, i.expr.isAggregate = false ∧ i.expr.wellScoped scope = true ∧
    i.expr.isRefused scope = false
  condition : ∀ c, s.condition? = some c → c.wellScoped scope = true ∧ c.isRefused scope = false
  keys : ∀ k ∈ s.orderBy, k.expr.isAggregate = false ∧ k.expr.wellScoped scope = true ∧
    k.expr.isRefused scope = false

/-- Rows that come in order need no sorting, and the others are sorted. -/
theorem sortRows_eq (s : Select) (rows : List (List Datum × List Datum)) :
    s.sortRows rows = rows.mergeSort fun a b => compareKeys s.orderBy a.2 b.2 != .gt := by
  rw [sortRows]
  split
  case isTrue h => exact (List.mergeSort_of_pairwise h).symm
  case isFalse => rfl

/-- The rows of a `SELECT` that goes row by row. -/
def plainRows (s : Select) (scope : Scope) (rows : List (List Datum)) : List (List Datum) :=
  let kept := rows.filter fun row => s.condition?.all fun c => c.holds scope row
  let out := kept.map fun row =>
    (s.items.map fun i => i.expr.eval scope row, s.orderBy.map fun k => k.expr.eval scope row)
  let distinct := if s.distinct then withoutRepeats out else out
  let sorted := if s.orderBy.isEmpty then distinct else s.sortRows distinct
  sorted.map (·.1)

namespace IsPlain

theorem isGrouped (h : s.IsPlain scope) : s.isGrouped = false := by
  rw [Select.isGrouped, h.ungrouped]
  simpa using fun i hi => (h.items i hi).1

theorem wellFormed (h : s.IsPlain scope) : s.wellFormed scope = true := by
  have hc : s.condition?.all (fun c => c.wellScoped scope) = true := by
    cases hc : s.condition? with
    | none => rfl
    | some c => exact (h.condition c hc).1
  rw [Select.wellFormed, h.ungrouped, hc]
  simpa using ⟨fun i hi => (h.items i hi).2.1, fun k hk => (h.keys k hk).2.1⟩

theorem isRefused (h : s.IsPlain scope) : s.isRefused scope asked = false := by
  have hi : (s.items.any fun i => i.expr.isRefused scope) = false := by
    simpa using fun i hi => (h.items i hi).2.2
  have hk : (s.orderBy.any fun k => k.expr.isRefused scope) = false := by
    simpa using fun k hk => (h.keys k hk).2.2
  rw [Select.isRefused, h.ungrouped, hi, hk]
  simp

/-- The rows for which the condition holds are left. -/
theorem kept (h : s.IsPlain scope) : s.kept scope (.ofRows rows) =
    .ofRows (rows.filter fun row => s.condition?.all fun c => c.holds scope row) := by
  have one_by_one : ∀ (conditions : List Expr) (rows : List (List Datum)),
      (∀ c ∈ conditions, c.isRefused scope = false) →
      conditions.foldl (fun (rows : Delivery (List Datum)) c =>
        (rows.barring (c.isRefused scope)).filter fun row => c.holds scope row) (.ofRows rows) =
        .ofRows (rows.filter fun row => conditions.all fun c => c.holds scope row) := by
    intro conditions
    induction conditions with
    | nil => intro rows _; simp
    | cons c rest ih =>
      intro rows hc
      rw [List.forall_mem_cons] at hc
      rw [List.foldl_cons, hc.1, Delivery.barring_false, Delivery.filter_ofRows, ih _ hc.2,
        List.filter_filter]
      simp [Bool.and_comm]
  rw [Select.kept]
  cases hc : s.condition? with
  | none => exact one_by_one [] rows (by simp)
  | some c =>
    rw [Option.elim_some, one_by_one _ _ fun c' hc' =>
      Expr.isRefused_of_conjunct (h.condition c hc).2 hc']
    simp [Expr.all_conjuncts]

/-- The output of one row. -/
theorem outputOf? (h : s.IsPlain scope) (row : List Datum) : s.outputOf? scope [row] =
    some (s.items.map fun i => i.expr.eval scope row, s.orderBy.map fun k => k.expr.eval scope row) := by
  rw [Select.outputOf?, mapM_eq_some fun i hi => Expr.evalGroup?_single (h.items i hi).1 scope row,
    mapM_eq_some fun k hk => Expr.evalGroup?_single (h.keys k hk).1 scope row]
  rfl

/-- **A query that goes row by row yields its rows.** -/
theorem delivery (h : s.IsPlain scope) :
    s.delivery scope asked (.ofRows rows) = .ofRows (s.plainRows scope rows) := by
  have hout : ∀ rows : List (List Datum),
      ((Delivery.ofRows rows).map fun row => [row]).filterMapWhile (s.outputOf? scope) =
        .ofRows (rows.map fun row =>
          (s.items.map fun i => i.expr.eval scope row, s.orderBy.map fun k => k.expr.eval scope row)) := by
    intro rows
    rw [Delivery.map_ofRows, Delivery.filterMapWhile_ofRows (f := fun group =>
      (s.items.map fun i => i.expr.eval scope (group.headD []),
        s.orderBy.map fun k => k.expr.eval scope (group.headD []))), List.map_map]
    · rfl
    · intro group hgroup
      obtain ⟨row, -, rfl⟩ := List.mem_map.1 hgroup
      exact h.outputOf? row
  have hsorted : (s.orderBy.isEmpty || s.isSortedByGroups) = s.orderBy.isEmpty := by
    rw [isSortedByGroups, h.isGrouped, Bool.false_and, Bool.false_and, Bool.or_false]
  rw [Select.delivery, h.kept, h.isRefused, Delivery.barring_false, h.isGrouped, hsorted, plainRows]
  simp only [Bool.false_eq_true, if_false, hout, cutOff, h.unlimited]
  cases s.distinct <;> cases s.orderBy.isEmpty <;> rfl

end IsPlain

end Select

/-! ## Queries of one table -/

/-- A result column for a field: its values are of the type, and it has the name. -/
structure Item.Fits (i : Item) (table : String) (s : Schema) (f : Field) : Prop where
  hasType : i.expr.HasType table s f.type
  name : ∀ {scope k}, scope.Shows table s k → i.resultName scope = f.name

namespace Item.Fits

variable {table : String} {s : Schema} {f : Field} {e : Expr}

theorem named (h : e.HasType table s f.type) : Item.Fits ⟨e, some f.name⟩ table s f :=
  ⟨h, fun _ => rfl⟩

theorem column (table : String) {name : String} (hf : s.field? name = some f) :
    Item.Fits ⟨.column table name, none⟩ table s f := by
  refine ⟨.column hf, fun {scope k} h => ?_⟩
  obtain ⟨j, b, -, hindex, hb, hfits⟩ := h.column hf
  rw [resultName]
  dsimp only
  rw [hindex, Option.bind_some, hb]
  exact hfits.name

theorem renamed {name : String} {g : Field} (hg : s.field? name = some g) (ht : f.type = g.type) :
    Item.Fits ⟨.column table name, some f.name⟩ table s f :=
  named (ht ▸ .column hg)

end Item.Fits

/-- The `SELECT` goes through one table row by row, and yields the fields of a schema. -/
structure Select.Over (sel : Select) (table : String) (s : Schema) (fields : List Field) : Prop where
  input : sel.input? = some (.table table)
  ungrouped : sel.groupBy = []
  unlimited : sel.limit? = none
  items : List.Forall₂ (fun i f => i.Fits table s f) sel.items fields
  condition : ∀ c, sel.condition? = some c → ∃ type, c.HasType table s type
  keys : ∀ k ∈ sel.orderBy, ∃ type, k.expr.HasType table s type

namespace Select.Over

variable {sel : Select} {table : String} {s : Schema} {fields : List Field} {scope : Scope} {k : Nat}
  {catalog : Catalog} {asked : Bool} {r : Relation} {t : Table}

theorem ofInput {items : List Item} (h : List.Forall₂ (fun i f => i.Fits table s f) items fields) :
    (Select.ofInput items (.table table)).Over table s fields :=
  ⟨rfl, rfl, rfl, h, fun _ hc => (by cases hc), fun _ hk => (by cases hk)⟩

theorem isPlain (h : sel.Over table s fields) (hs : scope.Shows table s k) : sel.IsPlain scope where
  ungrouped := h.ungrouped
  unlimited := h.unlimited
  items i hi := by
    obtain ⟨j, hj, rfl⟩ := List.getElem_of_mem hi
    have hfits := (h.items.get hj (h.items.length_eq ▸ hj)).hasType
    exact ⟨hfits.single, hfits.found hs, hfits.computed hs⟩
  condition c hc := by
    obtain ⟨type, ht⟩ := h.condition c hc
    exact ⟨ht.found hs, ht.computed hs⟩
  keys key hkey := by
    obtain ⟨type, ht⟩ := h.keys key hkey
    exact ⟨ht.single, ht.found hs, ht.computed hs⟩

/-- The headings are those of the fields. -/
theorem headings (h : sel.Over table s fields) (hs : scope.Shows table s k) :
    List.Forall₂ Heading.Fits (sel.items.map (sel.heading scope asked)) fields := by
  rw [List.forall₂_map_left_iff]
  refine h.items.imp fun i f hf => ⟨hf.name hs, hf.hasType.suits hs, ?_⟩
  rw [heading, hf.hasType.computed hs, Bool.and_false]

/-- The query has a result with the right headings, whatever rows the table has. -/
theorem eval? (asked : Bool) (h : sel.Over table s fields) (hs : s.Apart) (hc : catalog table = some r)
    (hr : List.Forall₂ Heading.Fits r.columns s.fields) :
    ∃ r', sel.eval? catalog asked = some r' ∧ List.Forall₂ Heading.Fits r'.columns fields ∧
      r'.toDelivery = sel.delivery (Scope.ofNumbered table r) asked r.numberedRows ∧
        r'.numbers? = none := by
  have hshows := shows_ofNumbered table hr hs
  obtain ⟨r', hr', hcolumns, hdelivery, hnumbers⟩ :=
    eval?_isSome asked (reads?_table h.input hc) (h.isPlain hshows).wellFormed
  exact ⟨r', hr', hcolumns ▸ h.headings hshows, hdelivery, hnumbers⟩

/-- The query reads the rows of the table one after the other. -/
theorem eval?_rows (asked : Bool) (h : sel.Over table s fields) (hs : s.Apart) (hc : catalog table = some r)
    (hr : r.Holds t s) (ht : t.Conforms s) :
    ∃ r' scope rowAt, sel.eval? catalog asked = some r' ∧
      List.Forall₂ Heading.Fits r'.columns fields ∧ r'.numbers? = none ∧
        r'.toDelivery = .ofRows (sel.plainRows scope ((List.range t.rowCount).map rowAt)) ∧
          scope.Shows table s 0 ∧ ∀ i, RowShows (rowAt i) s 0 (t.cell · i) := by
  obtain ⟨r', hr', hheadings, hdelivery, hnumbers⟩ := h.eval? asked hs hc hr.headings
  obtain ⟨back, hrows⟩ := hr.numberedRows
  have hshows := shows_ofNumbered table hr.headings hs
  refine ⟨r', _, fun i => storedRow t i ++ back i, hr', hheadings, hnumbers, ?_, hshows,
    fun i => rowShows_storedRow ht hs.nodup (back i) i⟩
  rw [hdelivery, hrows, (h.isPlain hshows).delivery]

end Select.Over

theorem Relation.Holds.of_rows {r : Relation} {t : Table} {s : Schema}
    (hh : List.Forall₂ Heading.Fits r.columns s.fields) (hn : r.numbers? = none)
    (hr : r.toDelivery = .ofRows (t.rows.map (·.map Datum.ofScalar))) : r.Holds t s where
  headings := hh
  rows := by
    rw [hr, Table.rows, List.map_map]
    rfl
  numbers ns hns := by
    rw [hn] at hns
    cases hns

/-! ## The rows of a query -/

namespace Select

variable {s : Select} {scope : Scope} {rowAt : Nat → List Datum} {n : Nat} {cells : Nat → List Scalar}

/-- Without condition or order, every row is turned into one. -/
theorem plainRows_eq_map (hd : s.distinct = false) (hc : s.condition? = none) (ho : s.orderBy = [])
    (rows : List (List Datum)) :
    s.plainRows scope rows = rows.map fun row => s.items.map fun it => it.expr.eval scope row := by
  rw [plainRows, hd, hc, ho]
  simp [Function.comp_def]

theorem plainRows_simple (hd : s.distinct = false) (hc : s.condition? = none) (ho : s.orderBy = [])
    (h : ∀ i < n, (s.items.map fun it => it.expr.eval scope (rowAt i)) = (cells i).map Datum.ofScalar) :
    s.plainRows scope ((List.range n).map rowAt) =
      ((List.range n).map cells).map (·.map Datum.ofScalar) := by
  rw [plainRows_eq_map hd hc ho, List.map_map, List.map_map]
  exact List.map_congr_left fun i hi => h i (List.mem_range.1 hi)

/-- With a condition, the rows for which it holds are turned into rows. -/
theorem plainRows_where (hd : s.distinct = false) {c : Expr} (hc : s.condition? = some c)
    (ho : s.orderBy = []) {test : Nat → Bool} (ht : ∀ i < n, c.holds scope (rowAt i) = test i) :
    s.plainRows scope ((List.range n).map rowAt) =
      ((List.range n).filter test).map fun i => s.items.map fun it => it.expr.eval scope (rowAt i) := by
  have hkept : (List.range n).filter ((fun row => c.holds scope row) ∘ rowAt) =
      (List.range n).filter test := List.filter_congr fun i hi => ht i (List.mem_range.1 hi)
  rw [plainRows, hd, hc, ho]
  simp only [Option.all_some, List.filter_map, hkept, List.map_map, Bool.false_eq_true, if_false,
    List.isEmpty_nil, if_true]
  rfl

theorem plainRows_filter (hd : s.distinct = false) {c : Expr} (hc : s.condition? = some c)
    (ho : s.orderBy = []) {test : Nat → Bool} (ht : ∀ i < n, c.holds scope (rowAt i) = test i)
    (h : ∀ i < n, (s.items.map fun it => it.expr.eval scope (rowAt i)) = (cells i).map Datum.ofScalar) :
    s.plainRows scope ((List.range n).map rowAt) =
      (((List.range n).filter test).map cells).map (·.map Datum.ofScalar) := by
  rw [plainRows_where hd hc ho ht, List.map_map]
  exact List.map_congr_left fun i hi => h i (List.mem_range.1 (List.mem_filter.1 hi).1)

/-- Rows that are left out because they repeat an earlier one are those with its key. -/
theorem plainRows_distinct (hd : s.distinct = true) (hc : s.condition? = none) (ho : s.orderBy = [])
    (hp : ∀ i < n, ∀ v ∈ cells i, v.isPlain = true) {width : Nat}
    (hw : ∀ i < n, (cells i).length = width)
    (h : ∀ i < n, (s.items.map fun it => it.expr.eval scope (rowAt i)) = (cells i).map Datum.ofScalar) :
    s.plainRows scope ((List.range n).map rowAt) =
      ((firstPositions [] 0 ((List.range n).map fun i => Scalar.keyOf (cells i))).map cells).map
        (·.map Datum.ofScalar) := by
  have hout : ((List.range n).map rowAt).map (fun row =>
      (s.items.map fun it => it.expr.eval scope row, ([] : List Datum))) =
        (List.range n).map fun i => ((cells i).map Datum.ofScalar, []) := by
    rw [List.map_map]
    exact List.map_congr_left fun i hi => by rw [Function.comp, h i (List.mem_range.1 hi)]
  have same : ∀ i, i < n → ∀ j, j < n → (Datum.sameTuple ((cells i).map Datum.ofScalar)
      ((cells j).map Datum.ofScalar) = true ↔ Scalar.keyOf (cells i) = Scalar.keyOf (cells j)) := by
    intro i hi j hj
    have plain : ∀ i < n, ∀ d ∈ (cells i).map Datum.ofScalar, d.isPlain = true := by
      intro i hi d hd
      obtain ⟨v, hv, rfl⟩ := List.mem_map.1 hd
      exact Datum.isPlain_ofScalar (hp i hi v hv)
    rw [Datum.sameTuple_iff (plain i hi) (plain j hj),
      Scalar.keyOf_eq_iff (hp i hi) (hp j hj) ((hw i hi).trans (hw j hj).symm)]
  have hfirsts := foldl_firsts (fun i => ((cells i).map Datum.ofScalar, ([] : List Datum)))
    (fun i => Scalar.keyOf (cells i)) (fun a b => Datum.sameTuple a.1 b.1) same
  rw [plainRows, hd, hc, ho]
  simp only [Option.all_none, List.filter_true, List.map_nil, if_true, List.isEmpty_nil]
  rw [hout, withoutRepeats, hfirsts, List.map_map, List.map_map]
  rfl

/-- Rows are sorted by the values of the keys, whatever is chosen of them. -/
theorem plainRows_mergeSort (hd : s.distinct = false) (hc : s.condition? = none)
    (ho : s.orderBy ≠ []) {order : Nat → Nat → Ordering} {out : Nat → List Datum}
    (hk : ∀ i < n, ∀ j < n,
      compareKeys s.orderBy (s.orderBy.map fun k => k.expr.eval scope (rowAt i))
        (s.orderBy.map fun k => k.expr.eval scope (rowAt j)) = order i j)
    (h : ∀ i < n, (s.items.map fun it => it.expr.eval scope (rowAt i)) = out i) :
    s.plainRows scope ((List.range n).map rowAt) =
      ((List.range n).mergeSort fun i j => order i j != .gt).map out := by
  have hnone : s.orderBy.isEmpty = false := by simpa using ho
  rw [plainRows, hd, hc, hnone]
  simp only [Option.all_none, List.filter_true, List.map_map, Bool.false_eq_true, if_false, sortRows_eq]
  rw [← List.map_mergeSort (r := fun i j => order i j != .gt), List.map_map]
  · exact List.map_congr_left fun i hi =>
      h i (List.mem_range.1 ((List.mergeSort_perm _ _).mem_iff.1 hi))
  · intro i hi j hj
    simp only [Function.comp, hk i (List.mem_range.1 hi) j (List.mem_range.1 hj)]

theorem plainRows_sorted (hd : s.distinct = false) (hc : s.condition? = none) (ho : s.orderBy ≠ [])
    {order : Nat → Nat → Ordering} (hk : ∀ i < n, ∀ j < n,
      compareKeys s.orderBy (s.orderBy.map fun k => k.expr.eval scope (rowAt i))
        (s.orderBy.map fun k => k.expr.eval scope (rowAt j)) = order i j)
    (h : ∀ i < n, (s.items.map fun it => it.expr.eval scope (rowAt i)) = (cells i).map Datum.ofScalar) :
    s.plainRows scope ((List.range n).map rowAt) =
      (((List.range n).mergeSort fun i j => order i j != .gt).map cells).map
        (·.map Datum.ofScalar) :=
  (plainRows_mergeSort hd hc ho hk h).trans List.map_map.symm

end Select
end LazyQuery.Sql
