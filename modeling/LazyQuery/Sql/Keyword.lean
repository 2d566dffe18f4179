import LazyQuery.Sql.Token
import LazyQuery.Text.Like

/-!
# Words of the statement language

Names that can be written without quotes, and those that cannot because they are words of the
language.
-/

set_option autoImplicit false

namespace LazyQuery.Sql

/-- The words of the language, in lower case. -/
def keywords : List String :=
  ["abort", "action", "add", "after", "all", "alter", "always", "analyze", "and", "as", "asc",
    "attach", "autoincrement", "before", "begin", "between", "by", "cascade", "case", "cast",
    "check", "collate", "column", "commit", "conflict", "constraint", "create", "cross", "current",
    "current_date", "current_time", "current_timestamp", "database", "default", "deferrable",
    "deferred", "delete", "desc", "detach", "distinct", "do", "drop", "each", "else", "end",
    "escape", "except", "exclude", "exclusive", "exists", "explain", "fail", "filter", "first",
    "following", "for", "foreign", "from", "full", "generated", "glob", "group", "groups", "having",
    "if", "ignore", "immediate", "in", "index", "indexed", "initially", "inner", "insert",
    "instead", "intersect", "into", "is", "isnull", "join", "key", "last", "left", "like", "limit",
    "match", "materialized", "natural", "no", "not", "nothing", "notnull", "null", "nulls", "of",
    "offset", "on", "or", "order", "others", "outer", "over", "partition", "plan", "pragma",
    "preceding", "primary", "query", "raise", "range", "recursive", "references", "regexp",
    "reindex", "release", "rename", "replace", "restrict", "returning", "right", "rollback", "row",
    "rows", "savepoint", "select", "set", "table", "temp", "temporary", "then", "ties", "to",
    "transaction", "trigger", "unbounded", "union", "unique", "update", "using", "vacuum", "values",
    "view", "virtual", "when", "where", "window", "with", "without"]

/-- Is the name a word of the language? -/
def isKeyword (name : String) : Bool := keywords.contains (String.ofList (Like.folded name))

/-- Can the name be written without quotes? It begins with a letter or underscore, goes on with such
or digits and is no word of the language. -/
def isPlainName (name : String) : Bool :=
  let cs := name.toList
  cs.all (fun c => c.isAlphanum || c = '_') && !(cs.headD '0').isDigit && !isKeyword name

/-- A name, in quotes only if it needs them. -/
def plainIdent (name : String) : String := if isPlainName name then name else ident name

end LazyQuery.Sql
