import LazyQuery.Proofs.Graph.Construction
import LazyQuery.Proofs.Graph.Order
import LazyQuery.Proofs.Graph.TableNames

/-!
# Graphs after whatever calls

A graph begins empty and grows by calls of constructors, with whatever numbers for nodes. A call that
fails leaves the graph as it is, so that all graphs that arise are built by the calls that succeed
(`constructed_afterAll`).

* `Registered` says of the lists of dependents that each holds the nodes that are built directly on a
  node, in increasing order. A call keeps this because it registers its node, whose number is greater
  than all others, once with each of its inputs (`dependents_push`).
* `operand_of_operandAt` says that an expression belongs to one table at any depth: the owner is handed
  down from an expression to its operands.
* `consistent_afterAll` puts this together with what well-formed graphs have, and says that further
  calls change no node.
-/

set_option autoImplicit false

namespace LazyQuery

open Sql

/-- Without its duplicates a list has none. -/
theorem nodup_eraseDups {α : Type} [BEq α] [LawfulBEq α] : ∀ xs : List α, xs.eraseDups.Nodup
  | [] => List.nodup_nil
  | a :: xs => by
    rw [List.eraseDups_cons, List.nodup_cons]
    refine ⟨fun h => ?_, nodup_eraseDups _⟩
    rw [List.mem_eraseDups, List.mem_filter] at h
    simp at h
termination_by xs => xs.length
decreasing_by exact Nat.lt_succ_of_le (List.length_filter_le _ _)

namespace Graph

variable {g : Graph} {i d : NodeId} {n : Node}

/-! ## Calls in turn -/

/-- The graph after a call. -/
def after (g : Graph) (c : Construction) : Graph :=
  match c.call g with
  | .ok r => r.2
  | .error _ => g

/-- The graph after calls, one after the other. -/
def afterAll (g : Graph) (calls : List Construction) : Graph := calls.foldl after g

theorem afterAll_append (g : Graph) (calls more : List Construction) :
    g.afterAll (calls ++ more) = (g.afterAll calls).afterAll more :=
  List.foldl_append

theorem constructed_after (hg : g.Constructed) (c : Construction) : (g.after c).Constructed := by
  rw [after]
  cases h : c.call g with
  | ok r => exact .add hg c h
  | error e => exact hg

theorem extends_after (hg : g.WellFormed) (c : Construction) : g.Extends (g.after c) := by
  rw [after]
  cases h : c.call g with
  | ok r => exact (c.adds hg h).extends
  | error e => exact .refl g

theorem constructed_afterAll (hg : g.Constructed) (calls : List Construction) :
    (g.afterAll calls).Constructed := by
  induction calls generalizing g with
  | nil => exact hg
  | cons c rest ih => exact ih (constructed_after hg c)

theorem extends_afterAll (hg : g.Constructed) (calls : List Construction) :
    g.Extends (g.afterAll calls) := by
  induction calls generalizing g with
  | nil => exact .refl g
  | cons c rest ih => exact (extends_after hg.wellFormed c).trans (ih (constructed_after hg c))

/-! ## Dependents -/

/-- The number is appended to the lists of all the nodes given. -/
theorem getElem?_register (id : NodeId) {deps : List NodeId} (hdeps : deps.Nodup)
    (lists : Array (List NodeId)) (d : NodeId) :
    (deps.foldl (fun lists dep => lists.modify dep (· ++ [id])) lists)[d]? =
      if d ∈ deps then lists[d]?.map (· ++ [id]) else lists[d]? := by
  induction deps generalizing lists with
  | nil => simp
  | cons a rest ih =>
    obtain ⟨ha, hrest⟩ := List.nodup_cons.1 hdeps
    rw [List.foldl_cons, ih hrest, Array.getElem?_modify]
    by_cases hd : a = d
    · subst hd
      simp [ha]
    · rw [if_neg hd]
      simp [Ne.symm hd]

theorem size_register (id : NodeId) (deps : List NodeId) (lists : Array (List NodeId)) :
    (deps.foldl (fun lists dep => lists.modify dep (· ++ [id])) lists).size = lists.size := by
  induction deps generalizing lists with
  | nil => rfl
  | cons a rest ih => rw [List.foldl_cons, ih, Array.size_modify]

/-- A new node is a dependent of its inputs. -/
theorem dependents_push {op : Op} {schema : Schema} (hsize : g.dependentLists.size = g.size)
    (hlt : ∀ d ∈ op.sources ++ op.evalSources, d < g.size) (d : NodeId) :
    (g.push op schema).2.dependents d =
      if d ∈ op.sources ++ op.evalSources then g.dependents d ++ [g.size] else g.dependents d := by
  have hreg := getElem?_register g.size (nodup_eraseDups (op.sources ++ op.evalSources))
    g.dependentLists d
  simp only [List.mem_eraseDups] at hreg
  rw [dependents, dependents, push]
  dsimp only
  rw [Array.getElem?_push, size_register, hsize]
  by_cases hd : d = g.size
  · have hnot : d ∉ op.sources ++ op.evalSources := fun h => Nat.ne_of_lt (hlt d h) hd
    rw [if_pos hd, if_neg hnot, hd, ← hsize, Array.getElem?_eq_none (Nat.le_refl _)]
    rfl
  · rw [if_neg hd, hreg]
    split
    · rename_i hmem
      rw [Array.getElem?_eq_getElem (by rw [hsize]; exact hlt d hmem)]
      rfl
    · rfl

/-- The lists of dependents are what they should be. -/
structure Registered (g : Graph) : Prop where
  size : g.dependentLists.size = g.size
  increasing : ∀ d, (g.dependents d).Pairwise (· < ·)
  mem_iff : ∀ d i, i ∈ g.dependents d ↔
    ∃ n, g.node? i = some n ∧ (d ∈ n.op.sources ∨ d ∈ n.op.evalSources)

theorem registered_empty (tag : String) : (empty tag).Registered where
  size := rfl
  increasing d := by simp [dependents, empty]
  mem_iff d i := by simp [dependents, node?, empty]

theorem Registered.push (hg : g.Registered) {op : Op} {schema : Schema}
    (hlt : ∀ d ∈ op.sources ++ op.evalSources, d < g.size) : (g.push op schema).2.Registered where
  size := by
    rw [size_push, Graph.push]
    dsimp only
    rw [Array.size_push, size_register, hg.size]
  increasing d := by
    rw [dependents_push hg.size hlt]
    split
    · refine List.pairwise_append.2 ⟨hg.increasing d, by simp, fun a ha b hb => ?_⟩
      obtain ⟨n, hn, -⟩ := (hg.mem_iff d a).1 ha
      rw [List.mem_singleton.1 hb]
      exact lt_size_of_node? hn
    · exact hg.increasing d
  mem_iff d i := by
    have hnew : i ∈ (g.push op schema).2.dependents d ↔
        i ∈ g.dependents d ∨ i = g.size ∧ (d ∈ op.sources ∨ d ∈ op.evalSources) := by
      rw [dependents_push hg.size hlt, ← List.mem_append]
      split
      · rename_i hd
        simp only [hd, and_true, List.mem_append, List.mem_singleton]
      · rename_i hd
        simp only [hd, and_false, or_false]
    rw [hnew, hg.mem_iff]
    constructor
    · rintro (⟨n, hn, hd⟩ | ⟨rfl, hd⟩)
      · exact ⟨n, (extends_push g op schema).node hn, hd⟩
      · exact ⟨_, node?_push.2 (.inr ⟨rfl, rfl⟩), hd⟩
    · rintro ⟨n, hn, hd⟩
      rcases node?_push.1 hn with hn | ⟨rfl, rfl⟩
      · exact .inl ⟨n, hn, hd⟩
      · exact .inr ⟨rfl, hd⟩

theorem Constructed.registered (hg : g.Constructed) : g.Registered := by
  induction hg with
  | empty tag => exact registered_empty tag
  | @add g r hg c hr ih =>
    obtain ⟨op, schema, hl, -, rfl⟩ := c.adds hg.wellFormed hr
    refine ih.push fun d hd => hl.input_lt ?_
    rcases List.mem_append.1 hd with hd | hd
    · exact Op.mem_inputs_of_mem_sources hd
    · exact Op.mem_inputs_of_mem_evalSources hd

/-! ## Operands -/

/-- The operands of a node at any depth. -/
inductive OperandAt (g : Graph) (id : NodeId) : NodeId → Prop
  | direct {n : Node} {d : NodeId} (hn : g.node? id = some n) (hd : d ∈ n.op.evalSources) :
      OperandAt g id d
  | nested {c d : NodeId} {n : Node} (h : OperandAt g id c) (hn : g.node? c = some n)
      (hd : d ∈ n.op.evalSources) : OperandAt g id d

end Graph

/-- An operand hands its owner down to its own operands. -/
theorem Op.Linked.operand {g : Graph} {op : Op} {owner d : NodeId} (h : op.Linked g)
    (ho : op.IsOperandOf owner) (hd : d ∈ op.evalSources) : g.Has (·.IsOperandOf owner) d := by
  cases op <;> simp only [Op.IsOperandOf] at ho
  case constant | projection => cases hd
  case criterion | arithmetic => exact ho ▸ h.2 d hd

namespace Graph

variable {g : Graph} {i d owner : NodeId} {n : Node}

/-- **All operands of an expression, at any depth, belong to its owner.** -/
theorem operand_of_operandAt (hg : g.WellFormed) (hn : g.node? i = some n)
    (ho : n.op.IsOperandOf owner) (hd : g.OperandAt i d) : g.Has (·.IsOperandOf owner) d := by
  induction hd with
  | direct hm hd =>
    obtain rfl := Option.some.inj (hn.symm.trans hm)
    exact (hg.linked hn).operand ho hd
  | nested _ hm hd ih =>
    obtain ⟨m', hm', hop⟩ := ih
    obtain rfl := Option.some.inj (hm.symm.trans hm')
    exact (hg.linked hm).operand hop hd

/-! ## Consistent graphs -/

/-- What holds of a graph after whatever calls. -/
structure Consistent (g : Graph) : Prop where
  /-- A node is found under its own number. -/
  id_eq : ∀ {i n}, g.node? i = some n → n.id = i
  /-- Two nodes have different names, also for a reader that ignores case. -/
  name_inj : ∀ {i j n m}, g.node? i = some n → g.node? j = some m →
    sameName n.name m.name = true → i = j
  /-- All that a node refers to has been built before. -/
  input_lt : ∀ {i n}, g.node? i = some n → ∀ d ∈ n.op.inputs, d < i
  /-- No node hangs on itself. -/
  acyclic : ∀ i, ¬g.DependsOn i i
  /-- Dependents are listed in increasing order, and none twice. -/
  increasing : ∀ d, (g.dependents d).Pairwise (· < ·)
  /-- They are the nodes that are built directly on a node, whatever number is asked for. -/
  mem_dependents : ∀ d i, i ∈ g.dependents d ↔
    ∃ n, g.node? i = some n ∧ (d ∈ n.op.sources ∨ d ∈ n.op.evalSources)
  /-- A condition or arithmetic expression has one source, a table. All its operands, at any depth, are
  constants, or single columns of this table, or conditions and arithmetic expressions with the same
  source. -/
  expression : ∀ {i n}, g.node? i = some n →
    ∀ owner, (∃ c, n.op = .criterion owner c) ∨ (∃ a, n.op = .arithmetic owner a) →
      n.op.sources = [owner] ∧ g.Has (·.isTable) owner ∧
        ∀ d, g.OperandAt i d → g.Has (·.IsOperandOf owner) d
  /-- What selects rows of a table is a condition on it or a single column of it. -/
  selection : ∀ {i n t c}, g.node? i = some n → n.op = .selection t c → g.Has (·.IsPredicateOf t) c
  /-- What is assigned to a column of a table is a constant or belongs to the table. -/
  assignment : ∀ {i n t column v}, g.node? i = some n → n.op = .assign t column v →
    g.Has (·.IsOperandOf t) v

theorem Constructed.consistent (hg : g.Constructed) : g.Consistent where
  id_eq := hg.wellFormed.id_eq
  name_inj := by
    intro i j n m hn hm h
    rwa [hg.wellFormed.name_eq hn, hg.wellFormed.name_eq hm, sameName_tableName] at h
  input_lt := hg.wellFormed.input_lt
  acyclic i h := Nat.lt_irrefl i (h.lt hg.wellFormed)
  increasing := hg.registered.increasing
  mem_dependents := hg.registered.mem_iff
  expression := by
    intro i n hn owner hop
    have hl := hg.wellFormed.linked hn
    have ho : n.op.IsOperandOf owner := by
      rcases hop with ⟨c, hop⟩ | ⟨a, hop⟩ <;> rw [hop] <;> rfl
    refine ⟨?_, ?_, fun d => operand_of_operandAt hg.wellFormed hn ho⟩
    · rcases hop with ⟨c, hop⟩ | ⟨a, hop⟩ <;> rw [hop] <;> rfl
    · rcases hop with ⟨c, hop⟩ | ⟨a, hop⟩ <;> rw [hop] at hl <;> exact hl.1
  selection := by
    intro i n t c hn hop
    have hl := hg.wellFormed.linked hn
    rw [hop] at hl
    exact hl.2
  assignment := by
    intro i n t column v hn hop
    have hl := hg.wellFormed.linked hn
    rw [hop] at hl
    exact hl.2

/-- **After whatever calls a graph is consistent, and further calls change no node.** -/
theorem consistent_afterAll (tag : String) (calls more : List Construction) :
    ((empty tag).afterAll calls).Consistent ∧
      ((empty tag).afterAll calls).Extends ((empty tag).afterAll (calls ++ more)) := by
  have hg := constructed_afterAll (.empty tag) calls
  rw [afterAll_append]
  exact ⟨hg.consistent, extends_afterAll hg more⟩

end Graph
end LazyQuery
