import LazyQuery.Proofs.Engine.Run
import LazyQuery.Proofs.Store.RowOrder
import LazyQuery.Proofs.Table.Inferred

/-!
# The two copies of a base table

A base table is kept in memory and loaded into the store. What the store keeps of a cell hangs on the
type of its column, which is inferred: it can be another kind of number, or a text. Once the types of
the schema are given back, the copy in the store is the one in memory, cell by cell
(`Engine.addTable_restored_iff`) — but for numbers and truth values in columns of texts, which come back
as texts.

* `Affinity.coerce_restored_iff` is about one cell, and `StoredTable.IsLoaded.coerce_toTable_iff` about
  a table.
-/

set_option autoImplicit false

namespace LazyQuery

open Sql

/-! ## Cells -/

/-- The cell is neither an undefined float nor the zero with a sign. -/
def Scalar.IsOrdinary (v : Scalar) : Prop :=
  ∀ x, v = .float x → x.isNaN = false ∧ x.bits ≠ Double.signBit

namespace Sql.Affinity

/-- What a column declared for a type keeps of a cell that has been given the type, as a cell again. -/
def restored (type : DataType) (v : Scalar) : Scalar :=
  ((declaredAffinity type).keep (Datum.ofScalar (v.coerce type))).toScalar

theorem restored_float {x : Double} (hx : (Scalar.float x).IsOrdinary) :
    restored .float64 (.float x) = .float x := by
  obtain ⟨hn, hz⟩ := hx x rfl
  have hbits : x.value.toBits = x.bits := congrArg Double.bits (Double.ofFloat_value hn)
  change (real.keep (Datum.ofFloat x.value)).toScalar = _
  rw [keep_real hn (hbits ▸ hz)]
  exact congrArg Scalar.float (Double.ofFloat_value hn)

theorem restored_int (i : Int64) : restored .float64 (.int i) = .float (doubleOfInt i) := by
  obtain ⟨hn, hz⟩ := Binary.floatOfInt_defined i
  change (real.keep (Datum.ofFloat (doubleOfInt i).value)).toScalar = _
  rw [doubleOfInt, Double.value_ofFloat, keep_real hn hz]
  rfl

/-- **A column keeps a cell of a type that it takes in**, unless it is one of texts and the cell is a
number or a truth value. -/
theorem coerce_restored_iff {type : DataType} {v : Scalar} (ht : type.unify v.dataType = type)
    (hv : v.IsOrdinary) : (restored type v).coerce type = v.coerce type ↔
      (type = .utf8 → v.float? = Option.none) := by
  by_cases htext : type = .utf8
  · subst htext
    simp only [forall_const]
    cases v with
    | float x =>
      have hreal : Datum.ofFloat x.value = .real x.value := by
        rw [Datum.ofFloat, show x.value.isNaN = false from (hv x rfl).1, if_neg Bool.false_ne_true]
      refine iff_of_false ?_ (Option.some_ne_none _)
      change ¬ (text.keep (Datum.ofFloat x.value)).toScalar.coerce .utf8 = _
      rw [hreal]
      exact Scalar.noConfusion
    | bool b => exact iff_of_false Scalar.noConfusion (Option.some_ne_none _)
    | int i => exact iff_of_false Scalar.noConfusion (Option.some_ne_none _)
    | _ => exact iff_of_true rfl rfl
  · refine iff_of_true ?_ fun h => absurd h htext
    cases type with
    | utf8 => exact absurd rfl htext
    | float64 =>
      cases v with
      | float x =>
        rw [restored_float hv]
      | int i =>
        rw [restored_int]
        rfl
      | bool b =>
        change (restored .float64 (.int (Scalar.bit b))).coerce .float64 = _
        rw [restored_int]
        rfl
      | null => rfl
      | _ => cases ht
    | _ =>
      cases v with
      | bool b => cases b <;> first | rfl | cases ht
      | _ => first | rfl | cases ht

end Sql.Affinity

/-! ## Tables -/

namespace StoredTable

variable {x : Table} {y : StoredTable}

theorem IsLoaded.names_columns (h : y.IsLoaded (x.coerce x.inferSchema) x.inferSchema) :
    y.columns.map (·.1) = x.names := by
  rw [h.names, Schema.names, Table.inferSchema, List.map_map]
  rfl

/-- A table that a base table has been loaded into is regular, as names are told apart where it was
created. -/
theorem IsLoaded.isRegular (h : y.IsLoaded (x.coerce x.inferSchema) x.inferSchema)
    (hapart : Database.repeatsName x.names = false)
    (ho : ∀ c ∈ x.names, sameName c "rowid" = false) (hn : x.rowCount < 2 ^ 63) : y.IsRegular where
  apart := h.names_columns ▸ Database.repeatsName_eq_false.1 hapart
  unnumbered c hc := ho _ (h.names_columns ▸ List.mem_map_of_mem hc)
  width := (h.isLegible (h.names ▸ h.names_columns ▸ hapart)).width
  countable := by
    rw [h.rows_length, Table.rowCount_coerce]
    exact hn

/-- What a base table is in the store, as a table of cells. -/
theorem IsLoaded.toTable (hx : x.Valid) (h : y.IsLoaded (x.coerce x.inferSchema) x.inferSchema) :
    y.toTable =
      ⟨x.columns.map fun c => ⟨c.name, c.values.map (Affinity.restored (inferType c.values))⟩⟩ := by
  have hnames : x.inferSchema.names = (x.coerce x.inferSchema).names := by
    rw [Table.names_coerce, ← h.names, h.names_columns]
  have hvalid : (x.coerce x.inferSchema).Valid :=
    ⟨hx.level.coerce _, (Table.names_coerce _ _).symm ▸ hx.2⟩
  rw [h.toTable_kept hvalid hnames, Table.keptIn, Table.coerce_inferSchema hx, Table.inferSchema,
    List.zipWith_map, List.zipWith_self]
  simp only [List.map_map]
  rfl

/-- **A base table is found again in the store as it is in memory**, if no column of texts holds numbers
or truth values. -/
theorem IsLoaded.coerce_toTable_iff (hx : x.Valid)
    (hv : ∀ c ∈ x.columns, ∀ v ∈ c.values, v.IsOrdinary)
    (h : y.IsLoaded (x.coerce x.inferSchema) x.inferSchema) :
    y.toTable.coerce x.inferSchema = x.coerce x.inferSchema ↔
      ∀ c ∈ x.columns, inferType c.values = .utf8 → ∀ v ∈ c.values, v.float? = none := by
  rw [h.toTable hx, Table.coerce_columns hx, Table.coerce_inferSchema hx, Table.mk.injEq]
  simp only [List.map_inj_left, Column.mk.injEq, true_and, List.map_map]
  refine forall₂_congr fun c hc => ?_
  constructor
  · intro h ht v hmem
    exact (Affinity.coerce_restored_iff (unify_inferType hmem) (hv c hc v hmem)).1 (h v hmem) ht
  · intro h v hmem
    exact (Affinity.coerce_restored_iff (unify_inferType hmem) (hv c hc v hmem)).2 fun ht => h ht v hmem

end StoredTable

/-! ## Loading and reading -/

namespace Store

variable {m : Mounted} {name : String}

/-- **A regular table is read as it is.** -/
theorem readTable_regular {y : StoredTable} (hy : m.table? name = some y) (h : y.IsRegular)
    (hn : Database.isListingName name = false) (hne : y.columns ≠ []) (hroom : y.columns.length ≤ columnRoom)
    (hname : Database.cutsOff [name] = false) (hcolumns : Database.cutsOff (y.columns.map (·.1)) = false) :
    ∃ m', readTable name (y.columns.map (·.1)) m = .ok y.toTable m' := by
  have hascends := StoredTable.ascends_of_numberColumn? h.numberColumn? h.countable
  rw [← (StoredTable.take_order_iff h.isLegible hne h.countable).2 hascends]
  exact readTable_legible hy h.isLegible hn hne hroom hname hcolumns

end Store

namespace Engine

variable {s t : Site} {x : Table} {id : NodeId}

/-- The table of a base table that is added has been declared. -/
theorem addTable_created : Ends (addTable x) s (fun _ _ => x.inferSchema.IsCreatable ∧
    Database.IsAllowed (s.engine.graph.tableName s.engine.graph.size)) fun _ _ => True := by
  rw [addTable]
  refine (build_ends fun r => Graph.addSource_adds).andThen ?_ fun _ _ _ => trivial
  rintro - t ⟨rfl, g, hg, rfl⟩
  have hn : (s.grown g).engine.graph.node? s.engine.graph.size =
      some ⟨s.engine.graph.size, s.engine.graph.tableName s.engine.graph.size, .source,
        x.inferSchema⟩ := by
    obtain rfl := Graph.eq_push_of_addSource hg
    exact Graph.node?_push.2 (.inr ⟨rfl, rfl⟩)
  rw [ends_bind, ends_node hn, ends_bind, ends_onStore]
  refine ends_iff.2 ⟨fun _ m hload => ?_, fun _ _ _ => trivial⟩
  exact ends_iff.2 ⟨fun _ _ _ => Store.isCreatable_of_bulkLoad hload, fun _ _ _ => trivial⟩

/-- **The two copies of a base table**, the one in memory and the one in the store, are the same once the
types of the schema are given back, unless a column of texts holds numbers or truth values: the store
keeps those as texts. -/
theorem addTable_restored_iff {P : Site → Prop} (hs : Site.Reached P s) (hx : x.Valid)
    (hv : ∀ c ∈ x.columns, ∀ v ∈ c.values, v.IsOrdinary)
    (ho : ∀ c ∈ x.names, sameName c "rowid" = false) (hn : x.rowCount < 2 ^ 63)
    (h : addTable x s = .ok id t) : ∃ (n : Node) (cached stored : Table) (m : Mounted),
      t.engine.graph.node? id = some n ∧ t.engine.cachedValue id = .ok (.table cached) ∧
        Store.readTable n.name n.columns t.mounted = .ok stored m ∧
          (stored.coerce n.schema = cached ↔
            ∀ c ∈ x.columns, inferType c.values = .utf8 → ∀ v ∈ c.values, v.float? = none) := by
  obtain ⟨⟨-, hroom, hapart, hcolumns⟩, hallowed⟩ := addTable_created.of_ok h
  have hname : Database.cutsOff _ = false := hallowed.whole
  have hapart' : Database.repeatsName x.names = false := by
    rwa [Schema.names, Table.inferSchema, List.map_map] at hapart
  obtain ⟨rfl, hturn⟩ := (addTable_ends hs.atRest).of_ok h
  cases hturn with
  | supplied _ g hg m y hw hy hload =>
    have hn' : g.node? s.engine.graph.size = some ⟨s.engine.graph.size,
        s.engine.graph.tableName s.engine.graph.size, .source, x.inferSchema⟩ := by
      obtain rfl := Graph.eq_push_of_addSource hg
      exact Graph.node?_push.2 (.inr ⟨rfl, rfl⟩)
    have hst : (s.supplied g m x).known? s.engine.graph.size = some _ :=
      Site.known?_modify_self (by exact Site.known?_grown_self hs.atRest.sound (Graph.addSource_adds hg)) _
    have hnames : y.columns.map (·.1) = x.inferSchema.names := hload.names
    have hwidth : y.columns.length = x.inferSchema.fields.length := by rw [hload.columns, List.length_map]
    obtain ⟨m', hread⟩ := Store.readTable_regular hy (hload.isRegular hapart' ho hn)
      (Graph.isListingName_tableName _ _) (by simp [hload.columns, hload.nonempty]) (hwidth ▸ hroom) hname
      (hnames ▸ hcolumns)
    rw [hnames] at hread
    exact ⟨_, _, _, m', hn', Site.cachedValue_of_cached hst rfl, hread, hload.coerce_toTable_iff hx hv⟩

theorem addTable_restored_iff_mixed : ∃ (s t : Site) (n : Node) (cached stored : Table) (m : Mounted),
    addTable ⟨[⟨"k", [.int 1, .text "a"]⟩]⟩ s = .ok 0 t ∧ t.engine.graph.node? 0 = some n ∧
      t.engine.cachedValue 0 = .ok (.table cached) ∧
        Store.readTable n.name n.columns t.mounted = .ok stored m ∧ stored.coerce n.schema ≠ cached := by
  have new : ∃ s t, Site.Reached (fun _ => True) s ∧
      addTable ⟨[⟨"k", [.int 1, .text "a"]⟩]⟩ s = .ok 0 t :=
    ⟨_, _, .start Disk.valid_empty (show start .empty "a" .standard = .ok _ from rfl) trivial, rfl⟩
  obtain ⟨s, t, hs, h⟩ := new
  have hordinary : ∀ c ∈ [Column.mk "k" [.int 1, .text "a"]], ∀ v ∈ c.values, v.IsOrdinary := by
    intro c hc v hv x hx
    subst hx
    obtain rfl := List.mem_singleton.1 hc
    simp at hv
  obtain ⟨n, cached, stored, m, hn, hcached, hread, hiff⟩ :=
    addTable_restored_iff hs ⟨by decide, by decide⟩ hordinary (by decide) (by decide) h
  refine ⟨s, t, n, cached, stored, m, h, hn, hcached, hread, fun heq => ?_⟩
  have := hiff.1 heq _ (List.mem_singleton_self _) rfl (.int 1) List.mem_cons_self
  cases this

end Engine
end LazyQuery
