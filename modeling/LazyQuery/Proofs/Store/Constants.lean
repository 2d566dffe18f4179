import LazyQuery.Proofs.Graph.WellFormed
import LazyQuery.Proofs.Sql.Quoting
import LazyQuery.Proofs.Store.Files
import LazyQuery.Proofs.Store.Loading
import LazyQuery.Sql.Compile

/-!
# Constants in statements and cells that are loaded

A value gets into the store in two ways: in the text of a statement, as a literal, or as a cell of a
table that is loaded. Both store the same of it (`Store.loadCell_ok`, `Store.rows_createConstant`), unless
it is a text with a zero character. A statement ends at such a character, so that one with the literal is
refused (`Store.createConstant_ok_iff`), while the cell is stored. `Store.quoting_undone` puts this
together with what is read back of names and literals.

* `Query.constant` is the query of a constant node (`Graph.compound_constant`).
* `Query.isAccepted_of_literal` is about every query that has a literal among its result columns.
-/

set_option autoImplicit false

namespace LazyQuery

namespace Sql

variable {v : Scalar} {column : String}

/-- The query of a constant, one cell in a column of a name. -/
def Query.constant (v : Scalar) (column : String) : Query :=
  ⟨[], [⟨false, [⟨.literal v, some column⟩], none, none, [], [], none⟩]⟩

/-! ## Texts of queries -/

/-- The characters of a literal are among those of a query that has it as a result column. -/
theorem Query.mem_render {q : Query} {s : Select} {i : Item} {c : Char} (hs : s ∈ q.body)
    (hi : i ∈ s.items) (he : i.expr = .literal v) (hc : c ∈ (literal v).toList) :
    c ∈ q.render.toList := by
  have hitem : c ∈ i.render.toList := by
    rw [Item.render, he]
    split
    · simp [Expr.render, hc]
    · exact hc
  have hselect : c ∈ s.render.toList := by
    have hitems : c ∈ (Text.commaSeparated (s.items.map Item.render)).toList :=
      mem_intercalate_of_mem ", " (List.mem_map_of_mem hi) hitem
    simp only [Select.render, String.toList_append, List.mem_append, hitems, or_true, true_or]
  have hbody : c ∈ (renderCompound q.body).toList :=
    mem_intercalate_of_mem _ (List.mem_map_of_mem hs) hselect
  rw [Query.render]
  split
  · exact hbody
  · rw [String.toList_append, List.mem_append]
    exact .inr hbody

/-- **A query with a literal among its result columns is refused** if the literal is one of a text with a
zero character. -/
theorem Query.isAccepted_of_literal {q : Query} {s : Select} {i : Item} {below : Nat} (hs : s ∈ q.body)
    (hi : i ∈ s.items) (he : i.expr = .literal v) (hv : v.IsDiscrete) (hz : v.holdsZero = true) :
    q.isAccepted below = false := by
  have hc : '\x00' ∈ (literal v).toList := by
    rw [← List.contains_iff_mem, contains_literal hv, hz]
  rw [Query.isAccepted, List.contains_iff_mem.2 (Query.mem_render hs hi he hc)]
  rfl

/-! ## Constants -/

/-- The query of a constant is accepted, unless the value holds a zero character. -/
theorem Query.isAccepted_constant (hv : v.IsDiscrete) (hcolumn : Database.cutsOff [column] = false) :
    (Query.constant v column).isAccepted Query.belowCreateTable = !v.holdsZero := by
  have hident : (ident column).toList.contains '\x00' = false := by
    rw [Database.cutsOff, List.any_eq_false] at hcolumn
    rw [Bool.eq_false_iff, Ne, List.contains_iff_mem, mem_ident, not_or]
    exact ⟨by decide, fun h => hcolumn column (List.mem_singleton_self _) (List.contains_iff_mem.2 h)⟩
  have htext : (Query.constant v column).render =
      "SELECT " ++ "" ++ (literal v ++ " AS " ++ ident column) ++ "" ++ "" ++ "" ++ "" ++ "" := by
    change " UNION ALL ".intercalate ["SELECT " ++ "" ++ ", ".intercalate _ ++ _ ++ _ ++ _ ++ _ ++ _] = _
    rw [String.intercalate_singleton, List.map_singleton, String.intercalate_singleton]
    rfl
  have hzero : (Query.constant v column).render.toList.contains '\x00' = v.holdsZero := by
    rw [htext]
    simp only [String.toList_append, List.contains_append, hident, contains_literal hv]
    simp
  have hdepth : (Query.constant v column).depth = 8 := by
    change max (max (max 0 (4 + max (literalDepth v) 4)) 0) 0 = 8
    rw [literalDepth]
    split <;> rfl
  rw [Query.isAccepted, hzero, hdepth]
  cases v.holdsZero <;> rfl

theorem Query.eval?_constant (v : Scalar) (column : String) (catalog : Catalog) :
    ∃ expected?, (Query.constant v column).eval? catalog =
      some ⟨.ofRows [[Datum.ofLiteral v]], [⟨column, .none, false⟩], none, expected?⟩ := by
  have hwritten (known : Catalog) : ∃ expected?, (Query.constant v column).evalAsWritten? known =
      some ⟨.ofRows [[Datum.ofLiteral v]], [⟨column, .none, false⟩], none, expected?⟩ := ⟨_, rfl⟩
  have hlayout (headings : Catalog) : ∃ layout,
      (Query.constant v column).layout? headings = some layout := ⟨_, rfl⟩
  have hheadings (known : Catalog) : (Query.constant v column).headings? known =
      some known.headingsOnly := rfl
  obtain ⟨expected?, hr⟩ := hwritten (catalog.only (Query.constant v column).sourceNames)
  obtain ⟨layout, hl⟩ := hlayout (catalog.only (Query.constant v column).sourceNames).headingsOnly
  refine ⟨expected?, ?_⟩
  have hlong : (Query.constant v column).hasLongPattern = false := rfl
  rw [Query.eval?]
  simp only [hheadings, Option.bind_eq_bind, Option.bind_some, hl, hlong, hr]
  rfl

end Sql

open Sql

theorem Graph.compound_constant {g : Graph} {id : NodeId} {n : Node} {v : Scalar}
    (hn : g.node? id = some n) (hop : n.op = .constant v) :
    g.compound id = .ok (Query.constant v n.columnName).body := by
  rw [compound, node_eq_ok.2 hn, ok_bind]
  dsimp only
  rw [hop]
  rfl

theorem Database.resultOf?_constant (db : Database) (v : Scalar) (column : String) :
    ∃ columns, db.resultOf? (.constant v column) = some (columns, [[Datum.ofLiteral v]]) := by
  obtain ⟨expected?, hr⟩ := Query.eval?_constant v column (db.catalogWith db.listingWithPending _)
  rw [resultOf?, hr]
  exact ⟨_, rfl⟩

namespace Store

variable {m : Mounted} {name column : String} {v : Scalar}

/-- A table of one cell, in a column declared for the type of the cell. -/
def loadCell (name column : String) (v : Scalar) : StoreM Unit :=
  bulkLoad name ⟨[⟨column, [v]⟩]⟩ ⟨[⟨column, v.dataType, v.isNull⟩]⟩

/-- A column declared for the type of a value keeps it. -/
theorem keep_dataType (hv : v.IsDiscrete) :
    (declaredAffinity v.dataType).keep (Datum.ofScalar v) = Datum.ofScalar v := by
  cases v with
  | float x =>
    rw [ofScalar_undefined (hv x rfl)]
    rfl
  | _ => rfl

/-- **A cell that is loaded is stored.** -/
theorem loadCell_ok (hm : m.Valid) (ht : m.Takes name) (hcolumn : Database.cutsOff [column] = false)
    (hv : v.IsDiscrete) : ∃ m', loadCell name column v m = .ok ⟨⟩ m' ∧
      (m'.table? name).map (·.rows) = some [[Datum.ofScalar v]] := by
  have hcreatable : Schema.IsCreatable ⟨[⟨column, v.dataType, v.isNull⟩]⟩ :=
    ⟨List.cons_ne_nil _ _, (by decide : 1 ≤ columnRoom), rfl, hcolumn⟩
  have hwidth : [Column.mk column [v]].length = [Field.mk column v.dataType v.isNull].length := rfl
  obtain ⟨m', hload⟩ := (bulkLoad_ok_iff hm hwidth).2 ⟨ht, hcreatable⟩
  obtain ⟨-, y, hy, hloaded⟩ := (bulkLoad_ends hm).of_ok hload
  refine ⟨m', hload, ?_⟩
  have hrow : y.keptRow [Datum.ofScalar v] = [Datum.ofScalar v] := by
    rw [StoredTable.keptRow, hloaded.columns]
    exact congrArg (fun d => [d]) (keep_dataType hv)
  rw [hy, Option.map_some, hloaded.rows]
  exact congrArg (fun r => some [r]) hrow

/-- **A constant is stored by its statement** just if it holds no zero character. -/
theorem createConstant_ok_iff (hm : m.Valid) (ht : m.Takes name)
    (hcolumn : Database.cutsOff [column] = false) (hv : v.IsDiscrete) :
    (∃ m', createTableAs name (.constant v column) m = .ok ⟨⟩ m') ↔ v.holdsZero = false := by
  have haccepted := Query.isAccepted_constant hv hcolumn
  constructor
  · rintro ⟨m', h⟩
    obtain ⟨-, c, db, y, -, -, -, hacc, -, -⟩ := (createTableAs_ends hm).of_ok h
    rwa [haccepted, Bool.not_eq_true'] at hacc
  · intro hz
    refine createTableAs_ok hm ht (by rw [haccepted, hz]; rfl) fun c db _ _ _ => ⟨rfl, ?_⟩
    obtain ⟨columns, hcolumns⟩ := Database.resultOf?_constant db v column
    rw [hcolumns]
    rfl

theorem rows_createConstant {m' : Mounted} (hm : m.Valid) (hv : v.IsDiscrete)
    (h : createTableAs name (.constant v column) m = .ok ⟨⟩ m') :
    (m'.table? name).map (·.rows) = some [[Datum.ofScalar v]] := by
  obtain ⟨-, c, db, y, -, -, -, -, hy, hresult⟩ := (createTableAs_ends hm).of_ok h
  obtain ⟨columns, hcolumns⟩ := Database.resultOf?_constant db v column
  rw [hcolumns, StoredTable.content, Option.some.injEq, Prod.mk.injEq] at hresult
  rw [hy, Option.map_some, ← hresult.2, ofLiteral_discrete hv]

/-- **Quoting can be undone, and is not broken out of.** A name or text between quotes is read back as it
is, whatever follows it, and a column with its table is told by its text. A value that is no float is what
its literal denotes, and stored alike by its statement and as a cell that is loaded, but for one thing: a
text with a zero character is stored as a cell, and no query is accepted with its literal. -/
theorem quoting_undone {v : Scalar} (hv : v.IsDiscrete) :
    (∀ (s : String) (k : List Char), k.head? ≠ some '"' →
        quoted? '"' ((ident s).toList ++ k) = some (s, k)) ∧
      (∀ (s : String) (k : List Char), k.head? ≠ some '\'' →
        quoted? '\'' ((literal (.text s)).toList ++ k) = some (s, k)) ∧
      (∀ t c t' c' : String, qualified t c = qualified t' c' ↔ t = t' ∧ c = c') ∧
      literalValue? (literal v) = some (Datum.ofScalar v) ∧
      (∀ scope row, (Expr.literal v).eval scope row = Datum.ofScalar v) ∧
      (v.holdsZero = true → ∀ (q : Query) (s : Select) (i : Item) (below : Nat), s ∈ q.body →
        i ∈ s.items → i.expr = .literal v → q.isAccepted below = false) ∧
      ∀ (m : Mounted) (name column : String), m.Valid → m.Takes name →
        Database.cutsOff [column] = false →
          (∃ m', loadCell name column v m = .ok ⟨⟩ m' ∧
            (m'.table? name).map (·.rows) = some [[Datum.ofScalar v]]) ∧
          ((∃ m', createTableAs name (.constant v column) m = .ok ⟨⟩ m') ↔ v.holdsZero = false) ∧
          ∀ m', createTableAs name (.constant v column) m = .ok ⟨⟩ m' →
            (m'.table? name).map (·.rows) = some [[Datum.ofScalar v]] := by
  refine ⟨fun s k hk => quoted?_ident hk s, fun s k hk => quoted?_literal hk s,
    fun t c t' c' => qualified_inj, literalValue?_literal hv, fun scope row => ?_, ?_, ?_⟩
  · exact ofLiteral_discrete hv
  · exact fun hz q s i below hs hi he => Query.isAccepted_of_literal hs hi he hv hz
  · exact fun m name column hm ht hcolumn => ⟨loadCell_ok hm ht hcolumn hv,
      createConstant_ok_iff hm ht hcolumn hv, fun m' h => rows_createConstant hm hv h⟩

theorem quoting_undone_zero : ∃ m m' : Mounted,
    loadCell "t" "c" (.text "a\x00b") m = .ok ⟨⟩ m' ∧
      (m'.table? "t").map (·.rows) = some [[.text "a\x00b"]] ∧
      (∀ m'', createTableAs "t" (.constant (.text "a\x00b") "c") m ≠ .ok ⟨⟩ m'') ∧
      quoted? '"' ((ident "a\"b").toList ++ ['.']) = some ("a\"b", ['.']) := by
  obtain ⟨m, hm, htakes⟩ : ∃ m, openAt .empty none = .ok m ∧ m.Takes "t" :=
    ⟨_, rfl, rfl, rfl, by decide, by decide, by decide⟩
  obtain ⟨hident, -, -, -, -, -, hstored⟩ := quoting_undone (v := .text "a\x00b") nofun
  obtain ⟨⟨m', hload, hrows⟩, hcreate, -⟩ := hstored m "t" "c" (openAt_spec Disk.valid_empty hm).2.1
    htakes (by decide)
  refine ⟨m, m', hload, hrows, fun m'' h => ?_, hident "a\"b" ['.'] (by decide)⟩
  exact absurd (hcreate.1 ⟨m'', h⟩) (by decide)

end Store
end LazyQuery
