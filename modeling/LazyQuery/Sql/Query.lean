import LazyQuery.Operator
import LazyQuery.Sql.Token

/-!
# Queries

The queries that results are computed with, as data, and their text.

* `Expr` is an expression over the columns of the tables in a `FROM` clause.
* `Select` is one `SELECT`; a `Query` is one or more of them joined by `UNION ALL`, after a `WITH`
  clause that names earlier results.
* `Query.readAll` reads the columns of a table in the order its rows were inserted.
-/

set_option autoImplicit false

namespace LazyQuery.Sql

/-- An arithmetic operator of statements. There is none for the exclusive or of bits. -/
inductive NumOp
  | add | sub | mul | div | rem | bitAnd | bitOr
  deriving DecidableEq, Inhabited

/-- The operator's symbol. -/
def NumOp.symbol : NumOp → String
  | add => "+"
  | sub => "-"
  | mul => "*"
  | div => "/"
  | rem => "%"
  | bitAnd => "&"
  | bitOr => "|"

/-- An expression. -/
inductive Expr
  | literal (v : Scalar)
  | column (table name : String)
  /-- A column of the only table, named without it. -/
  | bare (name : String)
  /-- The number of a row in its table. -/
  | rowid
  | compare (op : CompareOp) (l r : Expr)
  | arith (op : NumOp) (l r : Expr)
  | and (l r : Expr)
  | or (l r : Expr)
  | not (e : Expr)
  | like (e : Expr) (pattern : String)
  | isNull (e : Expr)
  | asReal (e : Expr)
  | neg (e : Expr)
  | bitNot (e : Expr)
  /-- The aggregate of an expression over the rows of a group. -/
  | aggregate (func : AggFunc) (e : Expr)
  deriving DecidableEq

namespace Expr

/-- A binary expression in parentheses. -/
def parenthesized (symbol l r : String) : String := "(" ++ l ++ " " ++ symbol ++ " " ++ r ++ ")"

/-- The text of an aggregate. Over no rows it is what the aggregate of an empty column is. -/
def aggregateText (func : AggFunc) (arg : String) : String :=
  match func with
  | .sum => "COALESCE(SUM(" ++ arg ++ "), 0)"
  | .count => "COUNT(" ++ arg ++ ")"
  | .mean => "AVG(" ++ arg ++ ")"
  | .min => "MIN(" ++ arg ++ ")"
  | .max => "MAX(" ++ arg ++ ")"
  | .prod => "product(" ++ arg ++ ")"
  | .any => "COALESCE(MAX((" ++ arg ++ ") <> 0), 0)"
  | .all => "COALESCE(MIN((" ++ arg ++ ") <> 0), 1)"

/-- The text of an expression. -/
def render : Expr → String
  | literal v => Sql.literal v
  | column t c => qualified t c
  | bare c => ident c
  | rowid => "rowid"
  | compare op l r => parenthesized op.symbol l.render r.render
  | arith op l r => parenthesized op.symbol l.render r.render
  | and l r => parenthesized "AND" l.render r.render
  | or l r => parenthesized "OR" l.render r.render
  | not e => "(NOT " ++ e.render ++ ")"
  | like e p => parenthesized "LIKE" e.render (Sql.literal (.text p))
  | isNull e => "(" ++ e.render ++ " IS NULL)"
  | asReal e => "CAST(" ++ e.render ++ " AS REAL)"
  | neg e => "(- " ++ e.render ++ ")"
  | bitNot e => "(~ " ++ e.render ++ ")"
  | aggregate func e => aggregateText func e.render

/-- Is the expression an aggregate? -/
def isAggregate : Expr → Bool
  | aggregate _ _ => true
  | _ => false

end Expr

/-- A column of a result, with a name if it does not have its own. -/
structure Item where
  expr : Expr
  name? : Option String
  deriving DecidableEq

/-- The text of a result column. -/
def Item.render (i : Item) : String :=
  match i.name? with
  | some n => i.expr.render ++ " AS " ++ ident n
  | none => i.expr.render

/-- The tables that a query reads. -/
inductive Input
  | table (name : String)
  /-- Two tables joined where all pairs of expressions are equal. The right one can be renamed. -/
  | join (left : String) (how : JoinType) (right : String) (rename? : Option String)
      (on : List (Expr × Expr))
  deriving DecidableEq

/-- The text of a `FROM` clause. -/
def Input.render : Input → String
  | table name => ident name
  | join left how right rename? on =>
    let kind := match how with
      | .inner => "INNER JOIN"
      | .left => "LEFT JOIN"
    let rightText := match rename? with
      | some n => ident right ++ " AS " ++ ident n
      | none => ident right
    ident left ++ " " ++ kind ++ " " ++ rightText ++ " ON "
      ++ " AND ".intercalate (on.map fun (l, r) => l.render ++ " = " ++ r.render)

/-- A key to sort by; `true` means ascending, and without a direction it is understood. -/
structure SortKey where
  expr : Expr
  ascending? : Option Bool
  deriving DecidableEq

/-- The text of a sort key. -/
def SortKey.render (k : SortKey) : String :=
  match k.ascending? with
  | some true => k.expr.render ++ " ASC"
  | some false => k.expr.render ++ " DESC"
  | none => k.expr.render

/-- One `SELECT`. -/
structure Select where
  distinct : Bool
  items : List Item
  input? : Option Input
  condition? : Option Expr
  groupBy : List Expr
  orderBy : List SortKey
  limit? : Option Nat
  deriving DecidableEq

namespace Select

/-- The items of one input, and nothing else. -/
def ofInput (items : List Item) (input : Input) : Select :=
  ⟨false, items, some input, none, [], [], none⟩

/-- A clause with its keyword, or nothing for an empty list of parts. -/
def clause (keyword : String) (parts : List String) : String :=
  match parts with
  | [] => ""
  | parts => keyword ++ Text.commaSeparated parts

/-- The text of a `SELECT`. -/
def render (s : Select) : String :=
  "SELECT " ++ (if s.distinct then "DISTINCT " else "")
    ++ Text.commaSeparated (s.items.map Item.render)
    ++ (match s.input? with
        | some i => " FROM " ++ i.render
        | none => "")
    ++ (match s.condition? with
        | some c => " WHERE " ++ c.render
        | none => "")
    ++ clause " GROUP BY " (s.groupBy.map Expr.render)
    ++ clause " ORDER BY " (s.orderBy.map SortKey.render)
    ++ (match s.limit? with
        | some n => " LIMIT " ++ toString n
        | none => "")

end Select

/-- One or more `SELECT`s, their rows in a row. -/
abbrev Compound := List Select

/-- The text of a compound. -/
def renderCompound (c : Compound) : String :=
  " UNION ALL ".intercalate (c.map Select.render)

/-- A query, with the earlier results it names. -/
structure Query where
  named : List (String × Compound)
  body : Compound
  deriving DecidableEq

namespace Query

/-- The text of a named result. -/
def renderNamed (n : String × Compound) : String :=
  ident n.1 ++ " AS (" ++ renderCompound n.2 ++ ")"

/-- The text of a query. -/
def render (q : Query) : String :=
  match q.named with
  | [] => renderCompound q.body
  | named => "WITH " ++ Text.commaSeparated (named.map renderNamed) ++ " " ++ renderCompound q.body

/-- Some columns of a table, its rows in the order they were inserted. -/
def readAll (table : String) (columns : List String) : Query :=
  ⟨[], [⟨false, columns.map fun c => ⟨.bare c, none⟩, some (.table table), none, [],
    [⟨.rowid, none⟩], none⟩]⟩

end Query
end LazyQuery.Sql
