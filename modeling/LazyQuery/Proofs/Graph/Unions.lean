import LazyQuery.Proofs.Graph.Columns
import LazyQuery.Proofs.Table.Inferred
import LazyQuery.Proofs.Table.Repetitions

/-!
# The schema of a union of base tables

A base table has the schema that is inferred for its values. The union of base tables gets its schema
field by field from theirs, without a look at any value, and yet it is the one that would be inferred for
all the rows together.

* `Table.inferSchema_atop`: to stack a table on another one widens the inferred schema by that of the other.
* `Table.concat_cons` says what a stack of valid tables with the same columns is.
* `Schema.widenedBy_comm` is why the order of the further tables does not count.
* `Graph.isBase_of_addSource`: the values that are given and those that are held are described alike.
-/

set_option autoImplicit false

namespace LazyQuery

/-! ## Schemas that are widened -/

namespace Schema

/-- The schema with each field widened by that of the same name in another one. -/
def widenedBy (s other : Schema) : Schema := ⟨s.fields.map other.widen⟩

theorem names_widenedBy (s other : Schema) : (s.widenedBy other).names = s.names := by
  rw [names, widenedBy, List.map_map]
  exact List.map_congr_left fun f _ => name_widen other f

theorem widen_comm (t u : Schema) (f : Field) : u.widen (t.widen f) = t.widen (u.widen f) := by
  cases ht : t.field? f.name <;> cases hu : u.field? f.name <;>
    simp [widen, ht, hu, DataType.unify_right_comm, Bool.or_right_comm]

theorem widenedBy_comm (s t u : Schema) :
    (s.widenedBy t).widenedBy u = (s.widenedBy u).widenedBy t := by
  rw [widenedBy, widenedBy, widenedBy, widenedBy, List.map_map, List.map_map]
  exact congrArg Schema.mk (List.map_congr_left fun f _ => widen_comm t u f)

/-- Schemas with the same names, each once, have the same columns. -/
theorem sameColumns_of_names {s t : Schema} (hs : s.names.Nodup) (ht : t.names.Nodup)
    (h : ∀ n, n ∈ t.names ↔ n ∈ s.names) : s.sameColumns t = true := by
  have hlen := ((List.perm_ext_iff_of_nodup ht hs).2 h).length_eq
  rw [names, names, List.length_map, List.length_map] at hlen
  rw [sameColumns, Bool.and_eq_true, beq_iff_eq, List.all_eq_true]
  exact ⟨hlen.symm, fun f hf => contains_iff.2 ((h _).2 (List.mem_map_of_mem hf))⟩

end Schema

/-! ## Tables that are stacked -/

namespace Table

variable {t u : Table} {us : List Table}

/-- The table on top of another one, whose columns are found by their names. -/
def atop (t u : Table) : Table :=
  ⟨t.columns.map fun c => ⟨c.name, c.values ++ (u.column? c.name).elim [] Column.values⟩⟩

theorem names_atop (t u : Table) : (t.atop u).names = t.names := by
  rw [names, atop, List.map_map]
  rfl

theorem valid_atop (ht : t.Valid) (hu : u.Valid) (h : ∀ n ∈ t.names, n ∈ u.names) :
    (t.atop u).Valid := by
  refine ⟨level_of_lengths (t.rowCount + u.rowCount) (List.forall_mem_map.2 fun c hc => ?_),
    names_atop t u ▸ ht.2⟩
  obtain ⟨d, hd⟩ := exists_column? (h c.name (List.mem_map_of_mem hc))
  rw [hd, Option.elim_some, List.length_append, ht.1 c hc, hu.1 d (List.mem_of_find?_eq_some hd)]

/-- **What is inferred for two tables together** is what is inferred for the upper one, widened by what is
inferred for the lower one. -/
theorem inferSchema_atop (t u : Table) :
    (t.atop u).inferSchema = t.inferSchema.widenedBy u.inferSchema := by
  simp only [Schema.widenedBy, inferSchema, atop, List.map_map, Schema.mk.injEq]
  refine List.map_congr_left fun c _ => ?_
  rw [Function.comp, Function.comp, Schema.widen, ← inferSchema, field?_inferSchema]
  cases u.column? c.name with
  | none => simp
  | some d => simp [inferType_append]

theorem appendTo_columns (hu : u.Valid) (ht : t.Valid) (h : ∀ n, n ∈ u.names ↔ n ∈ t.names) :
    appendTo t.columns u = .ok (t.atop u).columns := by
  have hlen := ((List.perm_ext_iff_of_nodup hu.2 ht.2).2 h).length_eq
  rw [names, names, List.length_map, List.length_map] at hlen
  rw [appendTo, if_neg (not_not.2 hlen)]
  refine mapM_eq_map fun c hc => ?_
  obtain ⟨d, hd⟩ := exists_column? ((h c.name).2 (List.mem_map_of_mem hc))
  rw [need_eq_ok.2 hd, hd]
  rfl

/-- Tables with the same columns, stacked one after the other. -/
theorem foldlM_appendTo (ht : t.Valid) (hus : ∀ u ∈ us, u.Valid ∧ ∀ n, n ∈ u.names ↔ n ∈ t.names) :
    us.foldlM appendTo t.columns = .ok (us.foldl atop t).columns ∧ (us.foldl atop t).Valid := by
  induction us generalizing t with
  | nil => exact ⟨rfl, ht⟩
  | cons u us ih =>
    obtain ⟨⟨hu, hnames⟩, hus⟩ := List.forall_mem_cons.1 hus
    rw [List.foldlM_cons, appendTo_columns hu ht hnames, ok_bind]
    refine ih (valid_atop ht hu fun n => (hnames n).2) fun v hv => ?_
    rw [names_atop]
    exact hus v hv

theorem concat_cons (ht : t.Valid) (hus : ∀ u ∈ us, u.Valid ∧ ∀ n, n ∈ u.names ↔ n ∈ t.names) :
    concat (t :: us) t.names = .ok (us.foldl atop t) := by
  have hempty : t.names.map (fun n => Column.mk n []) = t.columns.map fun c => ⟨c.name, []⟩ := by
    rw [names, List.map_map]
    rfl
  have htop : t.columns.map (fun c => Column.mk c.name ([] ++ c.values)) = t.columns := List.map_id _
  obtain ⟨hfold, hvalid⟩ := foldlM_appendTo ht hus
  rw [concat, hempty, List.foldlM_cons, appendTo_eq ht, htop, ok_bind, hfold, ok_bind]
  exact build_eq_ok.2 ⟨rfl, hvalid⟩

/-- The schema that is inferred for a table, widened by those that are inferred for others. -/
def widenedSchema (t : Table) (us : List Table) : Schema :=
  us.foldl (fun s u => s.widenedBy u.inferSchema) t.inferSchema

theorem inferSchema_foldl_atop (t : Table) (us : List Table) :
    (us.foldl atop t).inferSchema = t.widenedSchema us := by
  rw [widenedSchema]
  induction us generalizing t with
  | nil => rfl
  | cons u us ih => rw [List.foldl_cons, List.foldl_cons, ih, inferSchema_atop]

theorem widenedSchema_perm (t : Table) {us vs : List Table} (h : us.Perm vs) :
    t.widenedSchema us = t.widenedSchema vs :=
  h.foldl_eq' (fun u _ v _ s => Schema.widenedBy_comm s u.inferSchema v.inferSchema) _

end Table

/-! ## Unions -/

namespace Graph

variable {g g' : Graph} {id : NodeId} {t : Table}

/-- The node stands for the table: it is a base table, and its schema is the one that the values show. -/
structure IsBase (g : Graph) (id : NodeId) (t : Table) : Prop where
  valid : t.Valid
  node : ∃ n, g.node? id = some n ∧ n.op = .source ∧ n.schema = t.inferSchema

theorem IsBase.table (h : g.IsBase id t) : ∃ n, g.table id = .ok n ∧ n.schema = t.inferSchema := by
  obtain ⟨n, hn, hop, hs⟩ := h.node
  refine ⟨n, ?_, hs⟩
  rw [Graph.table, node_eq_ok.2 hn, ok_bind, hop]
  rfl

/-- A base table that is added for some values stands for them, and for what they are when they have
been given its types. -/
theorem isBase_of_addSource (ht : t.Valid) (h : g.addSource t.inferSchema = .ok (id, g')) :
    g'.IsBase id t ∧ g'.IsBase id (t.coerce t.inferSchema) := by
  have hnodes : ∃ n, g'.node? id = some n ∧ n.op = .source ∧ n.schema = t.inferSchema := by
    rw [addSource] at h
    split at h
    · cases h
    · cases h
      exact ⟨_, node?_push.2 (.inr ⟨rfl, rfl⟩), rfl, rfl⟩
  refine ⟨⟨ht, hnodes⟩, ⟨(ht.level.coerce _), ?_⟩, ?_⟩
  · rw [Table.names_coerce]
    exact ht.2
  · rwa [Table.inferSchema_coerce ht]

theorem widenBy_eq {s : Schema} (h : g.IsBase id t) (hs : s.names.Nodup)
    (hnames : ∀ n, n ∈ t.names ↔ n ∈ s.names) :
    g.widenBy s id = .ok (s.widenedBy t.inferSchema) := by
  obtain ⟨n, hn, hschema⟩ := h.table
  rw [← Table.names_inferSchema] at hnames
  have hsame : s.sameColumns t.inferSchema = true :=
    Schema.sameColumns_of_names hs (Table.names_inferSchema t ▸ h.valid.2) hnames
  rw [widenBy, hn, ok_bind, hschema]
  dsimp only
  rw [hsame]
  rfl

theorem foldlM_widenBy {s : Schema} {rest : List (NodeId × Table)} (hs : s.names.Nodup)
    (h : ∀ e ∈ rest, g.IsBase e.1 e.2 ∧ ∀ n, n ∈ e.2.names ↔ n ∈ s.names) :
    (rest.map Prod.fst).foldlM g.widenBy s =
      .ok ((rest.map Prod.snd).foldl (fun s u => s.widenedBy u.inferSchema) s) := by
  induction rest generalizing s with
  | nil => rfl
  | cons e rest ih =>
    obtain ⟨⟨hbase, hnames⟩, hrest⟩ := List.forall_mem_cons.1 h
    rw [List.map_cons, List.foldlM_cons, widenBy_eq hbase hs hnames, ok_bind]
    rw [← Schema.names_widenedBy s e.2.inferSchema] at hs hrest
    exact ih hs hrest

/-- Base tables with the same columns have a union, whose fields are widened source by source. -/
theorem addUnion_bases {first : NodeId × Table} {rest : List (NodeId × Table)}
    (hfirst : g.IsBase first.1 first.2)
    (hrest : ∀ e ∈ rest, g.IsBase e.1 e.2 ∧ ∀ n, n ∈ e.2.names ↔ n ∈ first.2.names) :
    g.addUnion (first.1 :: rest.map Prod.fst) = .ok (g.push (.union (first.1 :: rest.map Prod.fst))
      (first.2.widenedSchema (rest.map Prod.snd))) := by
  obtain ⟨n, hn, hschema⟩ := hfirst.table
  have hwiden := foldlM_widenBy (Table.names_inferSchema first.2 ▸ hfirst.valid.2)
    (Table.names_inferSchema first.2 ▸ hrest)
  rw [addUnion, hn, ok_bind, hschema, hwiden, ok_bind]
  rfl

/-- **Inference is a homomorphism.** The type that is inferred for two lists of values together is the
unification of the types of both, in whatever order the values come. Therefore the union of base tables
with the same columns has, in types and in which columns have nulls, just the schema that is inferred for
the tables stacked; and it is the same schema in whatever order the tables after the first are listed. -/
theorem inferred_union :
    (∀ xs ys, inferType (xs ++ ys) = (inferType xs).unify (inferType ys)) ∧
    (∀ xs ys : List Scalar, xs.Perm ys → inferType xs = inferType ys) ∧
    ∀ (g : Graph) (first : NodeId × Table) (rest : List (NodeId × Table)),
      (∀ e ∈ first :: rest, g.IsBase e.1 e.2) →
      (∀ e ∈ rest, ∀ n, n ∈ e.2.names ↔ n ∈ first.2.names) →
      ∃ s, ∀ listed : List (NodeId × Table), listed.Perm rest →
        (∃ r, g.addUnion (first.1 :: listed.map Prod.fst) = .ok r ∧ r.2.schema? r.1 = some s) ∧
        ∃ u, Table.concat (first.2 :: listed.map Prod.snd) first.2.names = .ok u ∧ u.inferSchema = s := by
  refine ⟨inferType_append, fun xs ys => inferType_perm, fun g first rest hbase hnames => ?_⟩
  obtain ⟨hfirst, hrest⟩ := List.forall_mem_cons.1 hbase
  refine ⟨first.2.widenedSchema (rest.map Prod.snd), fun listed hlisted => ?_⟩
  have hschema := first.2.widenedSchema_perm (hlisted.map Prod.snd)
  have hlist : ∀ e ∈ listed, g.IsBase e.1 e.2 ∧ ∀ n, n ∈ e.2.names ↔ n ∈ first.2.names :=
    fun e he => ⟨hrest e (hlisted.mem_iff.1 he), hnames e (hlisted.mem_iff.1 he)⟩
  constructor
  · refine ⟨_, addUnion_bases hfirst hlist, ?_⟩
    exact (schema?_eq_some (node?_push.2 (.inr ⟨rfl, rfl⟩))).trans (congrArg some hschema)
  · refine ⟨_, Table.concat_cons hfirst.valid ?_, ?_⟩
    · exact List.forall_mem_map.2 fun e he => ⟨(hlist e he).1.valid, (hlist e he).2⟩
    · rw [Table.inferSchema_foldl_atop, hschema]

/-- A base table with integers in one column and nothing in the other. -/
def mixedFirst : NodeId × Table := (0, ⟨[⟨"a", [.int 1, .int 2]⟩, ⟨"b", [.null, .null]⟩]⟩)

/-- Base tables with the same columns, which the first of them has the other way round. -/
def mixedRest : List (NodeId × Table) :=
  [(1, ⟨[⟨"b", [.text "x"]⟩, ⟨"a", [.bool true]⟩]⟩), (2, ⟨[⟨"a", [.null]⟩, ⟨"b", [.int 3]⟩]⟩)]

def mixedBases : Graph :=
  ⟨"s", #[⟨0, "ts_0", .source, ⟨[⟨"a", .int64, false⟩, ⟨"b", .null, true⟩]⟩⟩,
    ⟨1, "ts_1", .source, ⟨[⟨"b", .utf8, false⟩, ⟨"a", .boolean, false⟩]⟩⟩,
    ⟨2, "ts_2", .source, ⟨[⟨"a", .null, true⟩, ⟨"b", .int64, false⟩]⟩⟩], #[[], [], []]⟩

/-- Integers with truth values and nulls are integers, and texts with integers and nulls are texts, in
whichever order the second and the third table are listed. -/
theorem inferred_union_mixedBases :
    (∀ e ∈ mixedFirst :: mixedRest, mixedBases.IsBase e.1 e.2) ∧
    (∀ e ∈ mixedRest, ∀ n, n ∈ e.2.names ↔ n ∈ mixedFirst.2.names) ∧
    ∀ listed ∈ [mixedRest, mixedRest.reverse],
      (∃ r, mixedBases.addUnion (0 :: listed.map Prod.fst) = .ok r ∧
        r.2.schema? r.1 = some ⟨[⟨"a", .int64, true⟩, ⟨"b", .utf8, true⟩]⟩) ∧
      ∃ u, Table.concat (mixedFirst.2 :: listed.map Prod.snd) ["a", "b"] = .ok u ∧
        u.inferSchema = ⟨[⟨"a", .int64, true⟩, ⟨"b", .utf8, true⟩]⟩ := by
  have valid : ∀ e ∈ mixedFirst :: mixedRest, e.2.Valid := by
    unfold Table.Valid
    decide
  have bases : ∀ e ∈ mixedFirst :: mixedRest, mixedBases.IsBase e.1 e.2 := by
    refine fun e he => ⟨valid e he, ?_⟩
    fin_cases he <;> exact ⟨_, rfl, rfl, rfl⟩
  have names : ∀ e ∈ mixedRest, ∀ n, n ∈ e.2.names ↔ n ∈ mixedFirst.2.names := by
    simp [mixedRest, mixedFirst, Table.names, or_comm, eq_comm]
  obtain ⟨s, hs⟩ := inferred_union.2.2 mixedBases mixedFirst mixedRest bases names
  have schema : s = ⟨[⟨"a", .int64, true⟩, ⟨"b", .utf8, true⟩]⟩ := by
    obtain ⟨⟨r, hadd, hschema⟩, -⟩ := hs _ (.refl _)
    cases hadd
    exact (Option.some.inj hschema).symm
  subst schema
  refine ⟨bases, names, fun listed hlisted => hs listed ?_⟩
  rcases List.mem_pair.1 hlisted with rfl | rfl
  · exact .refl _
  · exact List.reverse_perm _

end Graph
end LazyQuery
