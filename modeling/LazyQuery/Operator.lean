import LazyQuery.DataType

/-!
# Operators

The vocabulary of comparisons, connectives, arithmetic and aggregation that queries are built from,
with the type each operator yields.
-/

set_option autoImplicit false

namespace LazyQuery

/-- A comparison of two operands. -/
inductive CompareOp
  | eq | ne | lt | le | gt | ge
  deriving DecidableEq, Inhabited

namespace CompareOp

/-- Does a comparison hold between operands that are ordered as given? -/
def holds : CompareOp → Ordering → Bool
  | eq, o => o == .eq
  | ne, o => o != .eq
  | lt, o => o == .lt
  | le, o => o != .gt
  | gt, o => o == .gt
  | ge, o => o != .lt

/-- The operator in a statement. -/
def symbol : CompareOp → String
  | eq => "="
  | ne => "<>"
  | lt => "<"
  | le => "<="
  | gt => ">"
  | ge => ">="

end CompareOp

/-- A connective of conditions. `not` takes one operand, the others two. -/
inductive Connective
  | and | or | not
  deriving DecidableEq, Inhabited

namespace Connective

/-- The name a message gives the connective. -/
def name : Connective → String
  | and => "And"
  | or => "Or"
  | not => "Not"

/-- How many operands the connective takes. -/
def arity : Connective → Nat
  | not => 1
  | and | or => 2

end Connective

/-- A binary arithmetic operator. Division always yields a float; the remainder is truncated toward
zero. -/
inductive ArithOp
  | add | sub | mul | div | rem | bitAnd | bitOr | bitXor
  deriving DecidableEq, Inhabited

namespace ArithOp

/-- The operator's symbol. -/
def symbol : ArithOp → String
  | add => "+"
  | sub => "-"
  | mul => "*"
  | div => "/"
  | rem => "%"
  | bitAnd => "&"
  | bitOr => "|"
  | bitXor => "^"

/-- Does the operator work on the bits of its operands? -/
def isBitwise : ArithOp → Bool
  | bitAnd | bitOr | bitXor => true
  | add | sub | mul | div | rem => false

/-- The type of the result for operands of the given types. -/
def resultType (op : ArithOp) (l r : DataType) : DataType :=
  match op with
  | div => .float64
  | bitAnd | bitOr | bitXor => .int64
  | add | sub | mul | rem =>
    match l.promote r with
    | .boolean | .null => .int64
    | t => t

end ArithOp

/-- A unary arithmetic operator. -/
inductive UnaryOp
  | neg | bitNot
  deriving DecidableEq, Inhabited

/-- The type of the result for an operand of the given type. -/
def UnaryOp.resultType : UnaryOp → DataType → DataType
  | neg, .float64 => .float64
  | _, _ => .int64

/-- An aggregation of a column, or of a column within each group. -/
inductive AggFunc
  | sum | count | mean | min | max | prod | any | all
  deriving DecidableEq, Inhabited

namespace AggFunc

/-- The function's name. -/
def name : AggFunc → String
  | sum => "sum"
  | count => "count"
  | mean => "mean"
  | min => "min"
  | max => "max"
  | prod => "prod"
  | any => "any"
  | all => "all"

/-- Is the function defined for numeric columns only? -/
def requiresNumeric : AggFunc → Bool
  | sum | mean | prod => true
  | count | min | max | any | all => false

/-- Can the result be null although no input is? It is for an empty input. -/
def isNullable : AggFunc → Bool
  | mean | min | max => true
  | sum | count | prod | any | all => false

/-- The type of the result for a column of the given type. -/
def resultType : AggFunc → DataType → DataType
  | count, _ => .int64
  | mean, _ => .float64
  | any, _ | all, _ => .boolean
  | min, t | max, t => t
  | sum, .float64 | prod, .float64 => .float64
  | sum, _ | prod, _ => .int64

end AggFunc

/-- Which left rows a join keeps: those with a match, or all. -/
inductive JoinType
  | inner | left
  deriving DecidableEq, Inhabited

/-- Where a node's result is produced. -/
inductive Backend
  | inMemory | relational
  deriving DecidableEq, Inhabited

/-- The name a message gives the backend. -/
def Backend.name : Backend → String
  | inMemory => "in-memory"
  | relational => "relational"

end LazyQuery
