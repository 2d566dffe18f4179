import LazyQuery.Store.Tables

/-!
# What a database says of itself

Every database has tables that queries can read and nothing can write.

* `Database.listing` has a row for each stored table, under the names of `listingNames`.
* `Database.builtIns` describe the store and the file: settings with their values, pages and their
  use, the tables once more. Those of `argumentColumns` tell something of a table that they are
  asked about and are empty otherwise; queries ask about none.
* `isBuiltIn` are all names that cannot be taken because the store has such a table. Of a few of
  them the contents depend on how the store was made; they are not read here.
-/

set_option autoImplicit false

namespace LazyQuery

open Sql

namespace Database

/-! ## The listing -/

/-- The names under which the listing is read. -/
def listingNames : List String := ["sqlite_master", "sqlite_schema"]

/-- The names of the listing of temporary tables, of which there are none. -/
def emptyListingNames : List String := ["sqlite_temp_master", "sqlite_temp_schema"]

/-- The columns of a listing. -/
def listingColumns : List (String × Affinity) :=
  [("type", .text), ("name", .text), ("tbl_name", .text), ("rootpage", .integer), ("sql", .text)]

/-- The row of a table in the listing. -/
def listingRow (t : StoredTable) : List Datum :=
  [.text "table", .text t.name, .text t.name, .integer (Int64.ofNat t.entry.page),
    .text t.entry.definition]

/-- The number of the next row in the listing. -/
def nextNumber (db : Database) : Nat :=
  db.tables.foldl (fun n t => max n t.entry.number) 0 + 1

/-- The tables of the database as a table. -/
def listing (db : Database) : Relation :=
  .ofTable listingColumns (db.tables.map listingRow)
    (db.tables.map fun t => Int64.ofNat t.entry.number)

/-- The listing while a table is being created: its row is there already but still empty. -/
def listingWithPending (db : Database) : Relation :=
  .ofTable listingColumns (db.tables.map listingRow ++ [listingColumns.map fun _ => .null])
    (db.tables.map (fun t => Int64.ofNat t.entry.number) ++ [Int64.ofNat db.nextNumber])

end Database

/-! ## Built-in tables -/

/-- A table that a database has by itself. -/
structure BuiltIn where
  name : String
  columns : List (String × Affinity)
  rows : List (List Datum)

namespace BuiltIn

/-- The table as queries see it. -/
def relation (t : BuiltIn) : Relation :=
  .numbered t.columns t.rows

/-- A table whose columns are declared without a type. -/
def untyped (name : String) (columns : List String) (rows : List (List Datum)) : BuiltIn :=
  ⟨name, columns.map fun c => (c, .blob), rows⟩

/-- What the names of tables about settings begin with. -/
def settingPrefix : String := "pragma_"

/-- A table about settings. -/
def about (name : String) : List String → List (List Datum) → BuiltIn :=
  untyped (settingPrefix ++ name)

/-- Settings that are numbers. -/
def numberSettings : List (String × Int64) :=
  [("analysis_limit", 0), ("application_id", 0), ("auto_vacuum", 0), ("automatic_index", 1),
    ("cache_size", -2000), ("cache_spill", 483), ("cell_size_check", 0),
    ("checkpoint_fullfsync", 0), ("count_changes", 0), ("data_version", 1),
    ("defer_foreign_keys", 0), ("empty_result_callbacks", 0), ("foreign_keys", 1),
    ("full_column_names", 0), ("fullfsync", 0), ("hard_heap_limit", 0),
    ("ignore_check_constraints", 0), ("journal_size_limit", -1), ("legacy_alter_table", 0),
    ("max_page_count", 4294967294), ("page_size", 4096), ("query_only", 0),
    ("read_uncommitted", 0), ("recursive_triggers", 0), ("reverse_unordered_selects", 0),
    ("secure_delete", 0), ("short_column_names", 1), ("soft_heap_limit", 0), ("synchronous", 2),
    ("temp_store", 0), ("threads", 0), ("trusted_schema", 1), ("user_version", 0),
    ("writable_schema", 0)]

/-- Settings that are texts. -/
def textSettings : List (String × String) :=
  [("encoding", "UTF-8"), ("integrity_check", "ok"), ("journal_mode", "delete"),
    ("locking_mode", "normal"), ("quick_check", "ok")]

/-- The columns of tables that are empty without an argument. -/
def argumentColumns : List (String × List String) :=
  [("foreign_key_check", ["table", "rowid", "parent", "fkid", "arg", "schema"]),
    ("foreign_key_list", ["id", "seq", "table", "from", "to", "on_update", "on_delete", "match",
      "arg", "schema"]),
    ("index_info", ["seqno", "cid", "name", "arg", "schema"]),
    ("index_list", ["seq", "name", "unique", "origin", "partial", "arg", "schema"]),
    ("index_xinfo", ["seqno", "cid", "name", "desc", "coll", "key", "arg", "schema"]),
    ("optimize", ["optimize", "arg"]),
    ("table_info", ["cid", "name", "type", "notnull", "dflt_value", "pk", "arg", "schema"]),
    ("table_xinfo", ["cid", "name", "type", "notnull", "dflt_value", "pk", "hidden", "arg",
      "schema"])]

/-- The names of all other settings and commands, some of which have no table. -/
def otherNames : List String :=
  ["busy_timeout", "case_sensitive_like", "collation_list", "compile_options", "database_list",
    "default_cache_size", "freelist_count", "function_list", "incremental_vacuum", "mmap_size",
    "module_list", "page_count", "pragma_list", "schema_version", "shrink_memory", "table_list",
    "temp_store_directory", "wal_autocheckpoint", "wal_checkpoint"]

/-- The names of all settings and commands in alphabetical order. -/
def allNames : List String :=
  (numberSettings.map (·.1) ++ textSettings.map (·.1) ++ argumentColumns.map (·.1)
    ++ otherNames).mergeSort fun a b => !(b < a)

/-- The columns of the two tables that take a document apart. Without a document they are empty. -/
def documentColumns : List String :=
  ["key", "value", "type", "atom", "id", "parent", "fullkey", "path", "json", "root"]

/-- The tables that do not depend on the database. -/
def constants : List BuiltIn :=
  numberSettings.map (fun (n, v) => about n [n] [[.integer v]])
    ++ textSettings.map (fun (n, v) => about n [n] [[.text v]])
    ++ argumentColumns.map (fun (n, columns) => about n columns [])
    ++ [about "busy_timeout" ["timeout"] [[.integer 5000]],
      about "default_cache_size" ["cache_size"] [[.integer (-2000)]],
      about "collation_list" ["seq", "name"]
        [[.integer 0, .text "RTRIM"], [.integer 1, .text "NOCASE"], [.integer 2, .text "BINARY"]],
      about "database_list" ["seq", "name"] [[.integer 0, .text "main"]],
      about "pragma_list" ["name"] (allNames.map fun n => [.text n]),
      untyped "json_each" documentColumns [], untyped "json_tree" documentColumns []]

/-- The names of built-in tables that are not read here. -/
def unreadNames : List String :=
  ["pragma_compile_options", "pragma_function_list", "pragma_module_list", "dbstat",
    "fts3tokenize"]

end BuiltIn

namespace Database

/-- A number of things as a stored value. -/
def countDatum (n : Nat) : Datum := .integer (Int64.ofNat n)

/-- The tables that do depend on the database. -/
def pageTables (db : Database) : List BuiltIn :=
  let tableRow (schema name : String) (columns : Nat) : List Datum :=
    [.text schema, .text name, .text "table", countDatum columns, .integer 0, .integer 0]
  [.about "freelist_count" ["freelist_count"] [[countDatum db.freePages.length]],
    .about "page_count" ["page_count"] [[countDatum db.pages]],
    .about "schema_version" ["schema_version"] [[countDatum db.revisions]],
    .about "table_list" ["schema", "name", "type", "ncol", "wr", "strict"]
      (db.tables.reverse.map (fun t => tableRow "main" t.name t.columns.length)
        ++ [tableRow "main" "sqlite_schema" 5, tableRow "temp" "sqlite_temp_schema" 5])]

/-- The built-in tables. -/
def builtIns (db : Database) : List BuiltIn := BuiltIn.constants ++ db.pageTables

/-- Is there a built-in table of the name? -/
def isBuiltIn (name : String) : Bool :=
  BuiltIn.unreadNames.any (sameName name) || (builtIns empty).any fun t => sameName name t.name

/-- The built-in table of a name. -/
def builtIn? (db : Database) (name : String) : Option Relation :=
  (db.builtIns.find? fun t => sameName name t.name).map BuiltIn.relation

end Database
end LazyQuery
