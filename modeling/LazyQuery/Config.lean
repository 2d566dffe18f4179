import LazyQuery.Document.Json
import LazyQuery.Error

/-!
# Configuration

What can be set for an engine, with defaults, and the three ways of setting it: one at a time, from
the variables of an environment, and from a JSON document.
-/

set_option autoImplicit false

namespace LazyQuery

/-- How the backend of a computation is chosen. -/
inductive Strategy
  /-- Always the relational store. -/
  | always
  /-- Always memory. -/
  | never
  /-- As the cost model says. -/
  | best
  deriving DecidableEq, Inhabited

namespace Strategy

/-- The name of a strategy. -/
def name : Strategy → String
  | always => "ALWAYS"
  | never => "NEVER"
  | best => "BEST"

/-- The strategy of a name, exactly as it is spelled. -/
def ofName? (s : String) : Option Strategy :=
  [always, never, best].find? fun t => t.name = s

/-- Characters that can surround the name of a strategy. -/
def isSpace (c : Char) : Bool :=
  let n := c.toNat
  (9 ≤ n && n ≤ 13) || n == 0x20 || n == 0x85 || n == 0xA0 || n == 0x1680
    || (0x2000 ≤ n && n ≤ 0x200A) || n == 0x2028 || n == 0x2029 || n == 0x202F || n == 0x205F
    || n == 0x3000

/-- A text without the spaces around it and with ASCII letters in upper case. -/
def normalized (s : String) : String :=
  let front := s.toList.dropWhile isSpace
  String.ofList ((front.reverse.dropWhile isSpace).reverse.map Char.toUpper)

/-- The strategy of a name in either case and with spaces around it. -/
def parse (s : String) : Except PlanError Strategy :=
  match ofName? (normalized s) with
  | some t => pure t
  | none => throw (.config (.unknownStrategy (normalized s)))

end Strategy

/-- What the cost model counts per byte. -/
structure CostWeights where
  /-- Loading a table from memory into the store. -/
  load : Float
  /-- Reading a table from the store into memory. -/
  read : Float
  /-- Scanning an input in the store. -/
  storeScan : Float
  /-- Scanning an input in memory. -/
  memoryScan : Float
  deriving DecidableEq, Inhabited

/-- The weights that hold unless others are set. -/
def CostWeights.standard : CostWeights := ⟨1.0, 1.0, 0.5, 0.25⟩

/-- The settings of an engine. -/
structure Config where
  /-- The memory for results, in bytes. -/
  memoryCap : UInt64
  /-- Without a strategy nothing can be computed. -/
  strategy : Option Strategy
  /-- The database file; without one the engine makes its own. -/
  databasePath : Option String
  /-- Is each ancestor in the store made a table of its own, rather than a part of the query? -/
  materializeIntermediates : Bool
  weights : CostWeights
  deriving DecidableEq, Inhabited

namespace Config

/-- The settings that hold unless others are made. -/
def standard : Config := ⟨512 * 1024 * 1024, some .best, none, true, .standard⟩

/-- The settings with a strategy. -/
def withStrategy (c : Config) (s : Strategy) : Config := { c with strategy := some s }

/-- The settings with a memory cap. -/
def withMemoryCap (c : Config) (bytes : UInt64) : Config := { c with memoryCap := bytes }

/-- The settings with a database file. -/
def withDatabasePath (c : Config) (path : String) : Config := { c with databasePath := some path }

/-! ## From an environment -/

/-- The word that digits stand for, after those already read. -/
def readDigits : Nat → List Char → Except NumberError UInt64
  | n, [] => pure (UInt64.ofNat n)
  | n, c :: cs =>
    if !c.isDigit then throw .invalidDigit
    else
      let next := 10 * n + (c.toNat - '0'.toNat)
      if next < 2 ^ 64 then readDigits next cs else throw .tooLarge

/-- A word written in digits, with or without a plus sign. -/
def readWord (s : String) : Except NumberError UInt64 :=
  match s.toList with
  | [] => throw .empty
  | ['+'] => throw .invalidDigit
  | '+' :: cs => readDigits 0 cs
  | cs => readDigits 0 cs

/-- The variable of the memory cap. -/
def memoryCapVariable : String := "TANDEM_MEM_CAP_BYTES"

/-- The variable of the strategy. -/
def strategyVariable : String := "TANDEM_STRATEGY"

/-- The variable of the database file. -/
def databaseVariable : String := "TANDEM_DATABASE_FILE"

/-- The variable of the treatment of ancestors. -/
def materializeVariable : String := "TANDEM_MATERIALIZE_INTERMEDIATES"

/-- The settings that the variables of an environment make, the others being standard. -/
def ofEnvironment (env : String → Option String) : Except PlanError Config := do
  let memoryCap ←
    match env memoryCapVariable with
    | none => pure standard.memoryCap
    | some s => (readWord s).mapError fun e => .config (.number memoryCapVariable e)
  let strategy ←
    match env strategyVariable with
    | none => pure standard.strategy
    | some s => do pure (some (← Strategy.parse s))
  let databasePath := env databaseVariable
  let materialize ←
    match env materializeVariable with
    | none => pure standard.materializeIntermediates
    | some "true" => pure true
    | some "false" => pure false
    | some _ => throw (.config (.notABool materializeVariable))
  pure ⟨memoryCap, strategy, databasePath, materialize, .standard⟩

/-! ## From a document -/

/-- A document that must be a string. -/
def string? : Json.Document → Option String
  | .string raw => Json.decodeString? raw
  | _ => none

/-- A document that can be absent. -/
def optional? {α : Type} (f : Json.Document → Option α) : Json.Document → Option (Option α)
  | .null => some none
  | d => (f d).map some

/-- A document that must be a word. -/
def word? : Json.Document → Option UInt64
  | .number n =>
    match n.number? with
    | some (.int i) => if 0 ≤ i then some (UInt64.ofNat i.toNat) else none
    | _ => none
  | _ => none

/-- A document that must be a truth value. -/
def bool? : Json.Document → Option Bool
  | .bool b => some b
  | _ => none

/-- A document that must be a number. -/
def float? : Json.Document → Option Float
  | .number n =>
    match n.number? with
    | some (.int i) => some (Float.ofInt i)
    | some (.float x) => some x
    | none => none
  | _ => none

/-- A document that must be a strategy: its name, or an object with null under its name. -/
def strategy? : Json.Document → Option Strategy
  | .string raw => (Json.decodeString? raw).bind Strategy.ofName?
  | .object [(raw, .null)] => (Json.decodeString? raw).bind Strategy.ofName?
  | _ => none

/-- The members of an object that have one of the given keys, each at most once. -/
def known? (keys : List String) (members : List (List Char × Json.Document)) :
    Option (List (String × Json.Document)) := do
  let decoded ← members.mapM fun (raw, d) => do pure ((← Json.decodeString? raw), d)
  let found := decoded.filter fun (k, _) => keys.contains k
  if (found.map (·.1)).Nodup then pure found else none

/-- The documents under the given keys, from an object or, by position, from an array. -/
def fields? (keys : List String) : Json.Document → Option (String → Option Json.Document)
  | .object members => do
    let found ← known? keys members
    pure fun k => (found.find? (·.1 == k)).map (·.2)
  | .array items =>
    if items.length ≤ keys.length then
      let found := keys.zip items
      some fun k => (found.find? (·.1 == k)).map (·.2)
    else none
  | _ => none

/-- The weights of a document, all of which it must give. -/
def weights? (d : Json.Document) : Option CostWeights := do
  let get ← fields? ["load_per_byte", "read_per_byte", "sql_scan_per_byte", "mem_scan_per_byte"] d
  let weight (k : String) : Option Float := (get k).bind float?
  pure ⟨← weight "load_per_byte", ← weight "read_per_byte", ← weight "sql_scan_per_byte",
    ← weight "mem_scan_per_byte"⟩

/-- A setting of a document, or its standard. -/
def setting? {α : Type} (f : Json.Document → Option α) (standard : α) :
    Option Json.Document → Option α
  | none => some standard
  | some d => f d

/-- The settings of a document, those that it does not make being standard. -/
def ofDocument? (d : Json.Document) : Option Config := do
  let get ← fields? ["mem_cap_bytes", "strategy", "database_path", "materialize_intermediates",
    "cost_weights"] d
  pure ⟨← setting? word? standard.memoryCap (get "mem_cap_bytes"),
    ← setting? (optional? strategy?) standard.strategy (get "strategy"),
    ← setting? (optional? string?) standard.databasePath (get "database_path"),
    ← setting? bool? standard.materializeIntermediates (get "materialize_intermediates"),
    ← setting? weights? standard.weights (get "cost_weights")⟩

/-- The settings of a text. -/
def ofText (text : String) : Except PlanError Config :=
  match (Json.parse? text.length text).bind ofDocument? with
  | some c => pure c
  | none => throw (.config .document)

end Config
end LazyQuery
