import LazyQuery.Engine.Evaluate
import LazyQuery.Proofs.Outcome

/-!
# Errors of tables in memory

An error is *reportable* if it blames what the engine was given: a plan, the values of a table, a
file. Errors that blame the engine itself are not: a violated invariant, a reservation that exceeds
the budget although it was found to fit, a statement that reads a table the store does not have.

Here is that every operation on tables in memory fails with reportable errors only, whatever the
tables are.
-/

set_option autoImplicit false

namespace LazyQuery

/-- Is the error not one of the engine itself? -/
def PlanError.IsReportable : PlanError → Prop
  | invariant _ => False
  | _ => True

/-- Is the error not one of the engine itself? -/
def FrameError.IsReportable : FrameError → Prop
  | plan e => e.IsReportable
  | _ => True

/-- Is the error not one of the engine itself? -/
def StoreError.IsReportable : StoreError → Prop
  | unknownTable => False
  | plan e => e.IsReportable
  | _ => True

/-- Is the error not one of the engine itself? -/
def EngineError.IsReportable : EngineError → Prop
  | plan e => e.IsReportable
  | frame e => e.IsReportable
  | store e => e.IsReportable
  | budget _ => False
  | resultTooLarge _ _ _ => True

section Steps

variable {α : Type}

theorem failsOnly_liftPlan {P : FrameError → Prop} {x : Except PlanError α} :
    FailsOnly P (liftM x : Except FrameError α) ↔ FailsOnly (fun e => P (.plan e)) x := by
  refine ⟨fun h e he => h _ ?_, fun h => FailsOnly.mapError h⟩
  rw [he]
  rfl

theorem failsOnly_construction {x : Except ConstructionError α} :
    FailsOnly FrameError.IsReportable (x.mapError fun e => .plan (.construction e)) :=
  FailsOnly.mapError fun _ _ => trivial

theorem failsOnly_column {e : FrameError} {c? : Option Column} {f : Column → α}
    (h : e.IsReportable) :
    FailsOnly FrameError.IsReportable
      (match c? with
        | some c => pure (f c)
        | none => throw e) := by
  cases c? with
  | some c => exact failsOnly_ok _
  | none => exact failsOnly_error.2 h

end Steps

namespace Elementwise

variable {a b : List Scalar}

theorem checkLength_failsOnly : FailsOnly FrameError.IsReportable (checkLength a b) :=
  FailsOnly.ite (fun _ => failsOnly_ok _) fun _ => failsOnly_error.2 trivial

theorem compare_failsOnly {op : CompareOp} : FailsOnly FrameError.IsReportable (compare op a b) :=
  checkLength_failsOnly.bind fun _ _ => failsOnly_ok _

theorem logical_failsOnly {op : Connective} :
    FailsOnly FrameError.IsReportable (logical op a b) := by
  cases op with
  | not => exact failsOnly_ok _
  | and | or => exact checkLength_failsOnly.bind fun _ _ => failsOnly_ok _

theorem checkNumeric_failsOnly {op : String} {v : Scalar} :
    FailsOnly FrameError.IsReportable (checkNumeric op v) := by
  unfold checkNumeric
  split
  · exact failsOnly_error.2 trivial
  · exact failsOnly_error.2 trivial
  · exact failsOnly_ok _

theorem arith_failsOnly {op : ArithOp} : FailsOnly FrameError.IsReportable (arith op a b) :=
  checkLength_failsOnly.bind fun _ _ => FailsOnly.mapM fun _ _ =>
    checkNumeric_failsOnly.bind fun _ _ => checkNumeric_failsOnly.bind fun _ _ => failsOnly_ok _

theorem unary_failsOnly {op : UnaryOp} : FailsOnly FrameError.IsReportable (unary op a) :=
  FailsOnly.mapM fun _ _ => checkNumeric_failsOnly.bind fun _ _ => failsOnly_ok _

end Elementwise

/-! ## Aggregates -/

namespace Aggregate

variable {values : List Scalar}

theorem fold_failsOnly {exact : Int64 → Int64 → Option Int64} {inexact : Double → Double → Double}
    {f : Fold} :
    FailsOnly FrameError.IsReportable (values.foldlM (Fold.step exact inexact) f) := by
  refine FailsOnly.foldlM fun f v _ => ?_
  unfold Fold.step
  split
  · exact failsOnly_error.2 trivial
  · exact failsOnly_ok _

theorem sum_failsOnly : FailsOnly FrameError.IsReportable (sum values) :=
  fold_failsOnly.bind fun _ _ => FailsOnly.ite
    (fun _ => failsOnly_error.2 trivial) fun _ => failsOnly_ok _

theorem prod_failsOnly : FailsOnly FrameError.IsReportable (prod values) :=
  fold_failsOnly.bind fun _ _ => failsOnly_ok _

theorem mean_failsOnly : FailsOnly FrameError.IsReportable (mean values) := by
  refine (FailsOnly.foldlM fun t v _ => ?_).bind fun _ _ => failsOnly_ok _
  split
  · exact failsOnly_error.2 trivial
  · exact failsOnly_ok _

end Aggregate

theorem aggregate_failsOnly {func : AggFunc} {values : List Scalar} :
    FailsOnly FrameError.IsReportable (aggregate func values) := by
  cases func with
  | sum => exact Aggregate.sum_failsOnly
  | prod => exact Aggregate.prod_failsOnly
  | mean => exact Aggregate.mean_failsOnly
  | count | min | max | any | all => exact failsOnly_ok _

/-! ## Tables -/

namespace Table

variable {t : Table}

theorem need_failsOnly {name : String} : FailsOnly FrameError.IsReportable (t.need name) :=
  failsOnly_column trivial

theorem keyColumns_failsOnly {keys : List String} :
    FailsOnly PlanError.IsReportable (t.keyColumns keys) := by
  refine FailsOnly.mapM fun k _ => ?_
  split
  · exact failsOnly_ok _
  · exact failsOnly_error.2 trivial

theorem rowDigests_failsOnly {keys : List String} :
    FailsOnly PlanError.IsReportable (t.rowDigests keys) :=
  keyColumns_failsOnly.bind fun _ _ => failsOnly_ok _

theorem rowKeys_failsOnly {keys : List String} :
    FailsOnly PlanError.IsReportable (t.rowKeys keys) :=
  keyColumns_failsOnly.bind fun _ _ => failsOnly_ok _

theorem select_failsOnly {columns : List String} :
    FailsOnly FrameError.IsReportable (t.select columns) :=
  (FailsOnly.mapM fun _ _ => need_failsOnly).bind fun _ _ => failsOnly_construction

theorem rename_failsOnly {mapping : List (String × String)} :
    FailsOnly FrameError.IsReportable (t.rename mapping) :=
  (FailsOnly.forM fun _ _ => need_failsOnly.bind fun _ _ => failsOnly_ok _).bind
    fun _ _ => failsOnly_construction

theorem dropDuplicates_failsOnly : FailsOnly FrameError.IsReportable t.dropDuplicates :=
  (failsOnly_liftPlan.2 rowDigests_failsOnly).bind fun _ _ => failsOnly_ok _

theorem concat_failsOnly {tables : List Table} {columns : List String} :
    FailsOnly FrameError.IsReportable (concat tables columns) := by
  refine (FailsOnly.foldlM fun out t _ => ?_).bind fun _ _ => failsOnly_construction
  refine FailsOnly.ite (fun _ => failsOnly_error.2 trivial) fun _ => ?_
  exact FailsOnly.mapM fun _ _ => need_failsOnly.bind fun _ _ => failsOnly_ok _

theorem assignColumn_failsOnly {name : String} {values : List Scalar} :
    FailsOnly FrameError.IsReportable (t.assignColumn name values) :=
  FailsOnly.ite (fun _ => failsOnly_error.2 trivial) fun _ => failsOnly_ok _

theorem filter_failsOnly {mask : List Scalar} :
    FailsOnly FrameError.IsReportable (t.filter mask) :=
  FailsOnly.ite (fun _ => failsOnly_error.2 trivial) fun _ => failsOnly_ok _

theorem sortValues_failsOnly {keys : List (String × Bool)} :
    FailsOnly FrameError.IsReportable (t.sortValues keys) := by
  refine FailsOnly.mapError (FailsOnly.ite (fun _ => failsOnly_ok _) fun _ => ?_)
  exact keyColumns_failsOnly.bind fun _ _ => failsOnly_ok _

theorem join_failsOnly {right : Table} {leftOn rightOn : List String} {how : JoinType}
    {layout : JoinLayout} :
    FailsOnly FrameError.IsReportable (t.join right leftOn rightOn how layout) := by
  refine FailsOnly.ite (fun _ => failsOnly_error.2 trivial) fun _ => ?_
  refine (failsOnly_liftPlan.2 rowKeys_failsOnly).bind fun _ _ => ?_
  refine (failsOnly_liftPlan.2 rowKeys_failsOnly).bind fun _ _ => ?_
  refine FailsOnly.bind (FailsOnly.mapM fun _ _ => failsOnly_column trivial) fun _ _ => ?_
  exact FailsOnly.bind (FailsOnly.mapM fun _ _ => failsOnly_column trivial)
    fun _ _ => failsOnly_construction

theorem aggregateTable_failsOnly {func : AggFunc} {columns : List String} :
    FailsOnly FrameError.IsReportable (t.aggregateTable func columns) :=
  (FailsOnly.mapM fun _ _ => need_failsOnly.bind fun _ _ =>
    aggregate_failsOnly.bind fun _ _ => failsOnly_ok _).bind fun _ _ => failsOnly_construction

theorem groups_failsOnly {keys : List String} : FailsOnly PlanError.IsReportable (t.groups keys) :=
  rowDigests_failsOnly.bind fun _ _ => keyColumns_failsOnly.bind fun _ _ => failsOnly_ok _

theorem aggregateGroups_failsOnly {keys columns : List String} {func : AggFunc} :
    FailsOnly FrameError.IsReportable (t.aggregateGroups keys columns func) := by
  refine (failsOnly_liftPlan.2 groups_failsOnly).bind fun _ _ => ?_
  refine (failsOnly_liftPlan.2 keyColumns_failsOnly).bind fun _ _ => ?_
  refine (FailsOnly.mapM fun _ _ => need_failsOnly.bind fun _ _ => ?_).bind
    fun _ _ => failsOnly_construction
  exact (FailsOnly.mapM fun _ _ => aggregate_failsOnly).bind fun _ _ => failsOnly_ok _

theorem describe_failsOnly : FailsOnly FrameError.IsReportable (Describe.describe t) :=
  failsOnly_construction

end Table

theorem Result.toTable_failsOnly {r : Result} {columns : List String} :
    FailsOnly FrameError.IsReportable (r.toTable columns) := by
  cases r with
  | table t => exact failsOnly_ok _
  | series entries => exact failsOnly_construction
  | scalar v =>
    cases columns with
    | nil => exact failsOnly_error.2 trivial
    | cons name _ =>
      rw [Result.toTable]
      exact failsOnly_construction

end LazyQuery
