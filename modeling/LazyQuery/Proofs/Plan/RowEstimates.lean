import LazyQuery.Plan.Estimate
import LazyQuery.Proofs.Graph.Consistency
import Mathlib.Algebra.Order.BigOperators.Group.List
import Mathlib.Algebra.Order.Group.Nat
import Mathlib.Data.List.Induction

/-!
# Row estimates as words

Rows are estimated in words of 64 bits. The rows of a union are the sum of those of its inputs, and
sums of words are words whatever they add up to; every other estimate is held to the words.

* `Graph.estimatedRows_of_node?` says what the estimate of a node is, given those of the nodes it works
  on. The estimator itself goes through the nodes once, from the first to the last.
* `Graph.CountsTo` is the same recursion, in which a sum that leaves the words has no result.
* `Graph.estimatedRows_exact_iff` says that the estimate of a node is exact just if no sum on the way to
  it leaves the words, and what becomes of the order between a union and its inputs.
-/

set_option autoImplicit false

namespace LazyQuery

open scoped Numbers

/-! ## Arrays that are filled from the front -/

section Filled

variable {α β : Type}

/-- The array in which each element is made of those before it. -/
def filled (make : Array β → α → β) (xs : List α) : Array β :=
  xs.foldl (fun found x => found.push (make found x)) #[]

theorem filled_concat (make : Array β → α → β) (xs : List α) (x : α) :
    filled make (xs ++ [x]) = (filled make xs).push (make (filled make xs) x) :=
  List.foldl_concat _ _ _ _

theorem size_filled (make : Array β → α → β) (xs : List α) : (filled make xs).size = xs.length := by
  induction xs using List.reverseRecOn with
  | nil => rfl
  | append_singleton xs x ih => rw [filled_concat, Array.size_push, ih, List.length_append]; rfl

/-- What an array holds at a place is made of what it holds before. -/
theorem getElem?_filled (make : Array β → α → β) (xs : List α) (i : Nat) :
    (filled make xs)[i]? = xs[i]?.map (make ((filled make xs).extract 0 i)) := by
  induction xs using List.reverseRecOn with
  | nil => rfl
  | append_singleton xs x ih =>
    have hsize := size_filled make xs
    rw [filled_concat, Array.getElem?_push, Array.extract_push, hsize]
    obtain hlt | rfl | hgt := Nat.lt_trichotomy i xs.length
    · rw [if_neg (Nat.ne_of_lt hlt), if_pos (Nat.le_of_lt hlt), ih, List.getElem?_append_left hlt]
    · rw [if_pos rfl, if_pos (Nat.le_refl _), List.getElem?_concat_length, ← hsize, Array.extract_size]
      rfl
    · rw [if_neg (Nat.ne_of_gt hgt), ih, List.getElem?_eq_none (Nat.le_of_lt hgt),
        List.getElem?_eq_none (by rw [List.length_append]; exact hgt)]
      rfl

end Filled

/-! ## Estimates of operations -/

/-- A sum of words is what the numbers add up to, without what leaves the words. -/
theorem toNat_foldl_add (words : List UInt64) (start : UInt64) :
    (words.foldl (· + ·) start).toNat = (start.toNat + (words.map UInt64.toNat).sum) % 2 ^ 64 := by
  induction words generalizing start with
  | nil => exact (Nat.mod_eq_of_lt start.toNat_lt).symm
  | cons w rest ih =>
    rw [List.foldl_cons, ih, UInt64.toNat_add, Nat.mod_add_mod, List.map_cons, List.sum_cons, Nat.add_assoc]

namespace Op

/-- The nodes whose rows the estimate of an operation hangs on. -/
def rowInputs : Op → List NodeId
  | describe _ => []
  | op => op.tables

theorem mem_inputs_of_mem_rowInputs {op : Op} {d : NodeId} (h : d ∈ op.rowInputs) : d ∈ op.inputs := by
  cases op with
  | describe t => cases h
  | _ => exact mem_inputs_of_mem_tables h

variable {rows rows' : NodeId → UInt64} {selectivity : NodeId → Float}

theorem rowEstimate_union (inputs : List NodeId) : (union inputs).rowEstimate rows selectivity =
    (inputs.map rows).foldl (· + ·) 0 :=
  List.foldl_map.symm

theorem rowEstimate_congr {op : Op} (h : ∀ d ∈ op.rowInputs, rows d = rows' d) :
    op.rowEstimate rows selectivity = op.rowEstimate rows' selectivity := by
  cases op with
  | union inputs =>
    rw [rowEstimate_union, rowEstimate_union]
    exact congrArg (List.foldl (· + ·) 0) (List.map_congr_left h)
  | _ => simp_all [rowInputs, tables, sources, rowEstimate]

/-- What the rows of the inputs add up to where they are added. -/
def rowSum (rows : NodeId → UInt64) : Op → Nat
  | union inputs => (inputs.map fun i => (rows i).toNat).sum
  | _ => 0

theorem rowSum_congr {op : Op} (h : ∀ d ∈ op.rowInputs, rows d = rows' d) :
    op.rowSum rows = op.rowSum rows' := by
  cases op with
  | union inputs => exact congrArg List.sum (List.map_congr_left fun d hd => by rw [h d hd])
  | _ => rfl

end Op

namespace Graph

variable {g : Graph} {view : View} {id : NodeId} {n : Node} {r : UInt64}

/-! ## The recursion -/

/-- The estimated selectivity of a node. -/
def selectivity (g : Graph) (id : NodeId) : Float := (g.selectivities[id]?).getD unknownSelectivity

/-- The rows of a node, given those of the nodes before it. -/
def nextRows (g : Graph) (view : View) (found : Array UInt64) (n : Node) : UInt64 :=
  match view.knownRows n.id with
  | some rows => rows
  | none => n.op.rowEstimate (fun id => (found[id]?).getD 0) g.selectivity

theorem rowEstimates_eq (g : Graph) (view : View) :
    g.rowEstimates view = filled (g.nextRows view) g.nodes.toList :=
  (Array.foldl_toList _).symm

theorem size_rowEstimates (g : Graph) (view : View) : (g.rowEstimates view).size = g.size := by
  rw [rowEstimates_eq, size_filled, Array.length_toList]
  rfl

theorem getElem?_rowEstimates (hn : g.node? id = some n) : (g.rowEstimates view)[id]? =
    some (g.nextRows view ((g.rowEstimates view).extract 0 id) n) := by
  rw [rowEstimates_eq, getElem?_filled, Array.getElem?_toList]
  exact congrArg (Option.map _) hn

/-- What has been observed is what the estimator finds. -/
theorem rowEstimates_getD (hg : g.WellFormed) (hn : g.node? id = some n) :
    ((g.rowEstimates view)[id]?).getD 0 = g.estimatedRows view id := by
  rw [estimatedRows]
  split
  · rename_i rows hk
    rw [getElem?_rowEstimates hn, nextRows, hg.id_eq hn, hk]
    rfl
  · rfl

theorem estimatedRows_of_known (h : view.knownRows id = some r) : g.estimatedRows view id = r := by
  rw [estimatedRows, h]

theorem estimatedRows_of_absent (hk : view.knownRows id = none) (hn : g.node? id = none) :
    g.estimatedRows view id = 0 := by
  rw [estimatedRows, hk]
  change ((g.rowEstimates view)[id]?).getD 0 = 0
  rw [rowEstimates_eq, getElem?_filled, Array.getElem?_toList]
  rw [show g.nodes[id]? = none from hn]
  rfl

/-- **The rows of a node are estimated from those of the nodes it works on.** -/
theorem estimatedRows_of_node? (hg : g.WellFormed) (hk : view.knownRows id = none)
    (hn : g.node? id = some n) :
    g.estimatedRows view id = n.op.rowEstimate (g.estimatedRows view) g.selectivity := by
  rw [estimatedRows, hk]
  change ((g.rowEstimates view)[id]?).getD 0 = _
  rw [getElem?_rowEstimates hn, Option.getD_some, nextRows, hg.id_eq hn, hk]
  refine Op.rowEstimate_congr fun d hd => ?_
  have hlt : d < id := hg.input_lt hn d (Op.mem_inputs_of_mem_rowInputs hd)
  obtain ⟨m, hm⟩ := node?_isSome (Nat.lt_trans hlt (lt_size_of_node? hn))
  rw [← rowEstimates_getD hg hm, Array.getElem?_extract, if_pos, Nat.zero_add]
  rw [size_rowEstimates]
  exact Nat.lt_min.2 ⟨hlt, lt_size_of_node? hm⟩

/-! ## Exact estimates -/

/-- The rows of a node are found without any sum that leaves the words. -/
inductive CountsTo (g : Graph) (view : View) : NodeId → UInt64 → Prop
  | known {id : NodeId} {r : UInt64} (h : view.knownRows id = some r) : CountsTo g view id r
  | absent {id : NodeId} (hk : view.knownRows id = none) (hn : g.node? id = none) :
      CountsTo g view id 0
  | estimated {id : NodeId} {n : Node} {rows : NodeId → UInt64} (hk : view.knownRows id = none)
      (hn : g.node? id = some n) (hrows : ∀ d ∈ n.op.rowInputs, CountsTo g view d (rows d))
      (hsum : n.op.rowSum rows < 2 ^ 64) :
      CountsTo g view id (n.op.rowEstimate rows g.selectivity)

/-- The nodes whose rows are estimated on the way to those of a node, itself among them. -/
inductive Estimates (g : Graph) (view : View) (id : NodeId) : NodeId → Prop
  | self (hk : view.knownRows id = none) : Estimates g view id id
  | input {i d : NodeId} {n : Node} (h : Estimates g view id i) (hn : g.node? i = some n)
      (hd : d ∈ n.op.rowInputs) (hk : view.knownRows d = none) : Estimates g view id d

/-- What is added up for a node stays within the words. -/
def SumFits (g : Graph) (view : View) (id : NodeId) : Prop :=
  ∀ n, g.node? id = some n → n.op.rowSum (g.estimatedRows view) < 2 ^ 64

/-- What is estimated on the way to an input is so on the way to the node. -/
theorem Estimates.of_input {i d : NodeId} (hk : view.knownRows id = none) (hn : g.node? id = some n)
    (hd : d ∈ n.op.rowInputs) (h : g.Estimates view d i) : g.Estimates view id i := by
  induction h with
  | self hk' => exact .input (.self hk) hn hd hk'
  | input _ hn hd hk ih => exact .input ih hn hd hk

/-- Nothing is estimated on the way to rows that have been observed. -/
theorem Estimates.unknown {i : NodeId} (h : g.Estimates view id i) : view.knownRows id = none := by
  induction h with
  | self hk => exact hk
  | input _ _ _ _ ih => exact ih

/-- What is estimated on the way to a node is that node, or is so on the way to an input. -/
theorem Estimates.cases_input {i : NodeId} (h : g.Estimates view id i) : i = id ∨
    ∃ n, g.node? id = some n ∧ ∃ d ∈ n.op.rowInputs, g.Estimates view d i := by
  induction h with
  | self hk => exact .inl rfl
  | input h hn hd hk ih =>
    obtain rfl | ⟨m, hm, e, he, hest⟩ := ih
    · exact .inr ⟨_, hn, _, hd, .self hk⟩
    · exact .inr ⟨m, hm, e, he, .input hest hn hd hk⟩

/-- A count without a sum that leaves the words is the estimate. -/
theorem CountsTo.spec (hg : g.WellFormed) (h : g.CountsTo view id r) :
    r = g.estimatedRows view id ∧ ∀ i, g.Estimates view id i → g.SumFits view i := by
  induction h with
  | known h =>
    refine ⟨(estimatedRows_of_known h).symm, fun i hi => ?_⟩
    rw [hi.unknown] at h
    cases h
  | absent hk hn =>
    refine ⟨(estimatedRows_of_absent hk hn).symm, fun i hi m hm => ?_⟩
    obtain rfl | ⟨n, hn', -⟩ := hi.cases_input
    · rw [hn] at hm
      cases hm
    · rw [hn] at hn'
      cases hn'
  | @estimated id n rows hk hn hrows hsum ih =>
    have hinputs : ∀ d ∈ n.op.rowInputs, rows d = g.estimatedRows view d := fun d hd => (ih d hd).1
    refine ⟨?_, fun i hi m hm => ?_⟩
    · rw [estimatedRows_of_node? hg hk hn, Op.rowEstimate_congr hinputs]
    · obtain rfl | ⟨n', hn', d, hd, hest⟩ := hi.cases_input
      · obtain rfl := Option.some.inj (hn.symm.trans hm)
        rwa [← Op.rowSum_congr hinputs]
      · obtain rfl := Option.some.inj (hn.symm.trans hn')
        exact (ih d hd).2 i hest m hm

/-- The estimate is counted if no sum on the way to it leaves the words. -/
theorem countsTo_estimatedRows (hg : g.WellFormed) (id : NodeId)
    (h : ∀ i, g.Estimates view id i → g.SumFits view i) :
    g.CountsTo view id (g.estimatedRows view id) := by
  induction id using Nat.strongRecOn with
  | ind id ih =>
    cases hk : view.knownRows id with
    | some r =>
      rw [estimatedRows_of_known hk]
      exact .known hk
    | none =>
      cases hn : g.node? id with
      | none =>
        rw [estimatedRows_of_absent hk hn]
        exact .absent hk hn
      | some n =>
        rw [estimatedRows_of_node? hg hk hn]
        refine .estimated hk hn (fun d hd => ih d ?_ fun i hi => h i (hi.of_input hk hn hd)) ?_
        · exact hg.input_lt hn d (Op.mem_inputs_of_mem_rowInputs hd)
        · exact h id (.self hk) n hn

/-! ## Unions -/

variable {inputs : List NodeId}

/-- The estimate of a union is what those of its inputs add up to, without what leaves the words. -/
theorem toNat_estimatedRows_union (hg : g.WellFormed) (hk : view.knownRows id = none)
    (hn : g.node? id = some n) (hu : n.op = .union inputs) : (g.estimatedRows view id).toNat =
      (inputs.map fun i => (g.estimatedRows view i).toNat).sum % 2 ^ 64 := by
  rw [estimatedRows_of_node? hg hk hn, hu, Op.rowEstimate_union, toNat_foldl_add, List.map_map]
  exact congrArg (· % 2 ^ 64) (Nat.zero_add _)

/-- **The estimate of a node is exact just if no sum on the way to it leaves the words.** Then a union is
estimated at no less than each of its inputs. A union of two nodes whose estimates add up to more is
estimated below both. -/
theorem estimatedRows_exact_iff (hg : g.Constructed) (view : View) (id : NodeId) :
    ((∃ r, g.CountsTo view id r) ↔ ∀ i, g.Estimates view id i → g.SumFits view i) ∧
      (∀ r, g.CountsTo view id r → r = g.estimatedRows view id) ∧
      ∀ n inputs, g.node? id = some n → n.op = .union inputs → view.knownRows id = none →
        (g.estimatedRows view id).toNat =
            (inputs.map fun i => (g.estimatedRows view i).toNat).sum % 2 ^ 64 ∧
          (g.SumFits view id → ∀ i ∈ inputs, g.estimatedRows view i ≤ g.estimatedRows view id) ∧
          ∀ a b, inputs = [a, b] → ¬ g.SumFits view id →
            g.estimatedRows view id < g.estimatedRows view a ∧
              g.estimatedRows view id < g.estimatedRows view b := by
  have hw := hg.wellFormed
  refine ⟨⟨fun ⟨r, h⟩ => (h.spec hw).2, fun h => ⟨_, countsTo_estimatedRows hw id h⟩⟩,
    fun r h => (h.spec hw).1, fun n inputs hn hu hk => ?_⟩
  have hsum := toNat_estimatedRows_union hw hk hn hu
  have hfits : g.SumFits view id ↔
      (inputs.map fun i => (g.estimatedRows view i).toNat).sum < 2 ^ 64 := by
    simp [SumFits, hn, hu, Op.rowSum]
  refine ⟨hsum, fun h i hi => ?_, fun a b hab h => ?_⟩
  · rw [Nat.mod_eq_of_lt (hfits.1 h)] at hsum
    rw [UInt64.le_iff_toNat_le, hsum]
    exact List.le_sum_of_mem (List.mem_map_of_mem hi)
  · subst hab
    rw [hfits] at h
    simp only [List.map_cons, List.map_nil, List.sum_cons, List.sum_nil] at h hsum
    have ha := (g.estimatedRows view a).toNat_lt
    have hb := (g.estimatedRows view b).toNat_lt
    rw [UInt64.lt_iff_toNat_lt, UInt64.lt_iff_toNat_lt]
    omega

/-- A base table that is stacked on itself. -/
def stackedTwice : Graph := (empty "s").afterAll [.source ⟨[⟨"k", .int64, false⟩]⟩, .union [0, 0]]

/-- If the base table has as many rows as a word can say, their sum leaves the words, and the union is
estimated below it. -/
theorem estimatedRows_exact_iff_stackedTwice : ∃ view : View, stackedTwice.Constructed ∧
    view.knownRows 0 = some 0xFFFFFFFFFFFFFFFF ∧ (¬ ∃ r, stackedTwice.CountsTo view 1 r) ∧
      stackedTwice.estimatedRows view 1 < stackedTwice.estimatedRows view 0 := by
  let view : View :=
    ⟨fun _ => false, fun _ => false, fun _ => false, fun id => if id = 0 then some 0xFFFFFFFFFFFFFFFF else none⟩
  have hg : stackedTwice.Constructed := constructed_afterAll (.empty "s") _
  obtain ⟨hcounts, -, hunion⟩ := estimatedRows_exact_iff hg view 1
  obtain ⟨-, -, hpair⟩ := hunion _ [0, 0] rfl rfl rfl
  have hexceeds : ¬ stackedTwice.SumFits view 1 := by
    intro h
    have hsum := h _ rfl
    change ([0, 0].map fun i => (stackedTwice.estimatedRows view i).toNat).sum < 2 ^ 64 at hsum
    rw [List.map_cons, List.map_cons, estimatedRows_of_known (rfl : view.knownRows 0 = some _)] at hsum
    exact absurd hsum (by decide)
  exact ⟨view, hg, rfl, fun h => hexceeds (hcounts.1 h 1 (.self rfl)), (hpair 0 0 rfl hexceeds).1⟩

end Graph
end LazyQuery
