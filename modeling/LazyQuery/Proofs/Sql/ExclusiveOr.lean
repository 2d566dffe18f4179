import LazyQuery.Elementwise
import LazyQuery.Proofs.Graph.Construction
import LazyQuery.Proofs.Scalar.Word
import LazyQuery.Proofs.Sql.Compile
import LazyQuery.Proofs.Sql.StoredEquality

/-!
# The exclusive or in queries

The relational store has no exclusive or. A query writes it as the difference of the union and the
intersection of two words. The store goes on with a float where a difference leaves the range of words, but
this one never does (`Graph.expression_exclusiveOr`).

* `Graph.expression_binary` puts the expression of a node together from those of its operands. They nest
  less deep than it, so `Graph.expressionWithin_succ` says that depth to spare makes no difference.
* `eval_exclusiveOr` is the difference in a row, and `arithCells_exclusiveOr` what it is in memory.
-/

set_option autoImplicit false

namespace LazyQuery

open Sql

/-! ## Expressions of nodes -/

namespace Graph

variable {g : Graph} {id : NodeId} {n : Node} {owner a b : NodeId}

/-- An expression that fits within some depth of nesting fits within the next one. -/
theorem expressionWithin_succ {fuel : Nat} {e : Expr} (h : g.expressionWithin fuel id = .ok e) :
    g.expressionWithin (fuel + 1) id = .ok e := by
  induction fuel generalizing id e with
  | zero =>
    obtain ⟨n, -, h⟩ := bind_eq_ok.1 h
    cases h
  | succ fuel ih =>
    have unary {a : NodeId} {f : Expr → Expr}
        (h : (g.expressionWithin fuel a >>= fun l => pure (f l)) = .ok e) :
        (g.expressionWithin (fuel + 1) a >>= fun l => pure (f l)) = .ok e := by
      obtain ⟨l, hl, h⟩ := bind_eq_ok.1 h
      rw [ih hl, ok_bind, h]
    have binary {a b : NodeId} {f : Expr → Expr → Expr}
        (h : (g.expressionWithin fuel a >>= fun l =>
          g.expressionWithin fuel b >>= fun r => pure (f l r)) = .ok e) :
        (g.expressionWithin (fuel + 1) a >>= fun l =>
          g.expressionWithin (fuel + 1) b >>= fun r => pure (f l r)) = .ok e := by
      obtain ⟨l, hl, h⟩ := bind_eq_ok.1 h
      rw [ih hl, ok_bind]
      exact unary h
    rw [expressionWithin] at h ⊢
    obtain ⟨⟨i, name, op, schema⟩, hn, h⟩ := bind_eq_ok.1 h
    rw [hn, ok_bind]
    cases op with
    | criterion o c =>
      cases c with
      | compare | and | or => exact binary h
      | like | isNull | not => exact unary h
    | arithmetic o e =>
      cases e with
      | binary => exact binary h
      | unary => exact unary h
    | projection t columns distinct => obtain _ | ⟨c, _ | _⟩ := columns <;> exact h
    | _ => exact h

/-- The expression of a node with an operator is made of those of its operands. -/
theorem expression_binary (hg : g.WellFormed) {op : ArithOp} (hn : g.node? id = some n)
    (hop : n.op = .arithmetic owner (.binary op a b)) :
    ∃ l r, g.expression a = .ok l ∧ g.expression b = .ok r ∧ g.expression id = .ok (op.expr l r) := by
  obtain ⟨i, name, _, schema⟩ := n
  subst hop
  have operand : g.Has (·.IsOperandOf owner) id := ⟨_, hn, rfl⟩
  obtain ⟨e, he⟩ := expression_isOk hg operand
  have hwithin := he
  rw [expression, expressionWithin, node_eq_ok.2 hn, ok_bind] at hwithin
  obtain ⟨l, hl, hwithin⟩ := bind_eq_ok.1 hwithin
  obtain ⟨r, hr, hwithin⟩ := bind_eq_ok.1 hwithin
  obtain rfl := Except.ok.inj hwithin
  exact ⟨l, r, expressionWithin_succ hl, expressionWithin_succ hr, he⟩

end Graph

/-! ## The difference -/

namespace Sql

variable {l r : Expr} {v w : Scalar} {x y : Int64}

theorem render_exclusiveOr (l r : Expr) : (ArithOp.bitXor.expr l r).render =
    "((" ++ l.render ++ " | " ++ r.render ++ ") - (" ++ l.render ++ " & " ++ r.render ++ "))" := by
  simp only [ArithOp.expr, Expr.render, Expr.parenthesized, NumOp.symbol, String.append_assoc]
  rfl

/-- In a row the difference is that of words, which is their exclusive or. -/
theorem eval_exclusiveOr {scope : Scope} {row : List Datum} (hl : l.eval scope row = .integer x)
    (hr : r.eval scope row = .integer y) :
    (ArithOp.bitXor.expr l r).eval scope row = .integer (x ^^^ y) := by
  simp [ArithOp.expr, Expr.eval, Expr.applyNumOp, hl, hr, Datum.toNumber, Datum.isNull, Datum.toInt,
    Word.sub?_or_and]

theorem arithCells_exclusiveOr (hv : v.int? = some x) (hw : w.int? = some y) :
    Elementwise.arithCells .bitXor v w = .ok (.int (x ^^^ y)) := by
  have operand {v : Scalar} {x : Int64} (h : v.int? = some x) :
      Elementwise.checkNumeric ArithOp.bitXor.symbol v = .ok () ∧ v.isNull = false ∧
        Elementwise.intOf v = x := by
    cases v <;> cases h <;> exact ⟨rfl, rfl, rfl⟩
  obtain ⟨hvcheck, hvnull, rfl⟩ := operand hv
  obtain ⟨hwcheck, hwnull, rfl⟩ := operand hw
  rw [Elementwise.arithCells, hvcheck, hwcheck, ok_bind, ok_bind, hvnull, hwnull]
  rfl

end Sql

namespace Graph

/-- **The exclusive or of a query is exact.** The expression of a node with an exclusive or is the difference
of the union and the intersection of its operands' expressions. For cells that are integers or truth values
the difference is never out of range. It is their exclusive or, as it is in memory. -/
theorem expression_exclusiveOr {g : Graph} (hg : g.Constructed) {id : NodeId} {n : Node}
    {owner a b : NodeId} (hn : g.node? id = some n)
    (hop : n.op = .arithmetic owner (.binary .bitXor a b)) :
    ∃ e l r, g.expression id = .ok e ∧ g.expression a = .ok l ∧ g.expression b = .ok r ∧
      e.render = "((" ++ l.render ++ " | " ++ r.render ++ ") - (" ++ l.render ++ " & " ++ r.render ++ "))" ∧
      ∀ (scope : Scope) (row : List Datum) (v w : Scalar) (x y : Int64),
        v.int? = some x → w.int? = some y →
        l.eval scope row = Datum.ofScalar v → r.eval scope row = Datum.ofScalar w →
          Word.Fits ((x ||| y).toInt - (x &&& y).toInt) ∧
          (x ^^^ y).toInt = (x ||| y).toInt - (x &&& y).toInt ∧
          e.eval scope row = .integer (x ^^^ y) ∧
          Elementwise.arithCells .bitXor v w = .ok (.int (x ^^^ y)) := by
  obtain ⟨l, r, hl, hr, he⟩ := expression_binary hg.wellFormed hn hop
  refine ⟨_, l, r, he, hl, hr, render_exclusiveOr l r, fun scope row v w x y hv hw hlv hrw => ?_⟩
  rw [ofScalar_int hv] at hlv
  rw [ofScalar_int hw] at hrw
  have hexact := Word.toInt_xor x y
  exact ⟨hexact ▸ Word.fits_toInt _, hexact, eval_exclusiveOr hlv hrw, arithCells_exclusiveOr hv hw⟩

/-- A column of integers with their sign bits flipped. -/
def flipped : Graph :=
  ⟨"s", #[⟨0, "ts_0", .source, ⟨[⟨"k", .int64, true⟩]⟩⟩,
    ⟨1, "ts_1", .projection 0 ["k"] false, ⟨[⟨"k", .int64, true⟩]⟩⟩,
    ⟨2, "ts_2", .constant (.int Int64.minValue), ⟨[⟨constantColumn, .int64, false⟩]⟩⟩,
    ⟨3, "ts_3", .arithmetic 0 (.binary .bitXor 1 2), ⟨[⟨"k", .int64, true⟩]⟩⟩],
    #[[1, 3], [3], [3], []]⟩

theorem constructed_flipped : flipped.Constructed :=
  .add (r := (3, flipped)) (.add (.add (.add (.empty "s") (.source ⟨[⟨"k", .int64, true⟩]⟩) rfl)
    (.projection 0 ["k"] false) rfl) (.constant (.int Int64.minValue)) rfl) (.arith .bitXor 1 2) rfl

/-- With its sign bit flipped minus one is the greatest integer. -/
theorem expression_exclusiveOr_flipped : ∃ e, flipped.expression 3 = .ok e ∧
    e.eval [⟨"ts_0", ⟨"k", .integer, false⟩, false⟩] [.integer (-1)] = .integer Int64.maxValue := by
  obtain ⟨e, l, r, he, hl, hr, -, heval⟩ := expression_exclusiveOr constructed_flipped
    (show flipped.node? 3 = some _ from rfl) rfl
  obtain rfl := Except.ok.inj (hl.symm.trans rfl)
  obtain rfl := Except.ok.inj (hr.symm.trans rfl)
  obtain ⟨-, -, hvalue, -⟩ := heval [⟨"ts_0", ⟨"k", .integer, false⟩, false⟩] [.integer (-1)]
    (.int (-1)) (.int Int64.minValue) _ _ rfl rfl rfl rfl
  exact ⟨e, he, hvalue⟩

end Graph
end LazyQuery
