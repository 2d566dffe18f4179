import LazyQuery.Proofs.Document.Readings
import LazyQuery.Proofs.Table.Inferred
import Mathlib.Data.List.GetD

/-!
# Tables that are read from documents

A reader gives each cell a value by itself and then brings every column to the type that its values agree
on: numbers widen, and beside a text everything is text. `settled` is what the two readers share.

A `Reader` says what is read of that which is found under a name, and `Table.IsReadFrom` what comes of it: a
table of uniform columns in which just those cells are missing that the document lacks, and each cell is what
its reading becomes in a column of the type that all readings agree on.
-/

set_option autoImplicit false

namespace LazyQuery

/-! ## Columns that are settled -/

/-- The values of a column once it has been brought to the inferred type; `texts` if that is text. -/
def settled (texts values : List Scalar) : List Scalar :=
  if inferType values = .utf8 then texts else values.map (Scalar.coerce (inferType values))

variable {texts values : List Scalar}

/-- Values that agree on a type without wider and narrower ones have it already. -/
theorem map_coerce_eq (hi : inferType values ≠ .int64) (hf : inferType values ≠ .float64) :
    values.map (Scalar.coerce (inferType values)) = values := by
  refine map_eq_self_iff.2 fun v hv => ?_
  have h := unify_inferType hv
  generalize inferType values = type at h hi hf
  cases type <;> cases v <;>
    first | rfl | exact absurd rfl hi | exact absurd rfl hf | exact DataType.noConfusion h

theorem uniform_settled (h : ∀ v ∈ texts, v.isNull = false → v.dataType = .utf8) :
    Uniform (settled texts values) := by
  rw [settled]
  split
  · exact uniform_of_type .utf8 h
  · rename_i ht
    exact uniform_coerce ht

/-- Nothing goes missing in a column, and nothing is made up. -/
theorem isNull_settled (h : texts.map Scalar.isNull = values.map Scalar.isNull) :
    (settled texts values).map Scalar.isNull = values.map Scalar.isNull := by
  rw [settled]
  split
  · exact h
  · rw [List.map_map]
    exact List.map_congr_left fun v _ => Scalar.isNull_coerce _ v

/-- **A settled column shows the type that its values agree on.** -/
theorem inferType_settled (h : ∀ v ∈ texts, v.isNull = false → v.dataType = .utf8)
    (hn : texts.map Scalar.isNull = values.map Scalar.isNull) :
    inferType (settled texts values) = inferType values := by
  rw [settled]
  split
  · rename_i ht
    rw [ht]
    obtain htexts | ⟨-, hnone⟩ := inferType_cases h
    · exact htexts
    · -- Without any text there would not be any value to begin with.
      have hnull : ∀ v ∈ values, v.isNull = false → v.dataType = .null := fun v hv hv' => by
        have hmem := hn ▸ List.mem_map_of_mem (f := Scalar.isNull) hv
        obtain ⟨w, hw, hsame⟩ := List.mem_map.1 hmem
        rw [hnone w hw, hv'] at hsame
        cases hsame
      obtain hvalues | ⟨hvalues, -⟩ := inferType_cases hnull <;> rw [hvalues] at ht <;> cases ht
  · exact inferType_coerce values

/-! ## Tables that are read -/

variable {α : Type}

/-- How cells are made of what is found under a name. -/
structure Reader (α : Type) where
  /-- It stands for no value. -/
  lacks : Option α → Prop
  /-- It is read, by itself, as a value. -/
  reads : Option α → Scalar → Prop
  /-- In a column of texts this stands for it, when it has been read as a value. -/
  text : Option α → Scalar → Scalar

namespace Reader

/-- The column holds what the records have under its name. Its type is what their readings agree on, and its
cells are the readings as values of that type, or texts. -/
def Holds (reader : Reader α) (records : List (List (String × α))) (c : Column) : Prop :=
  ∃ readings : List Scalar,
    List.Forall₂ (fun r v => reader.reads (r.lookup c.name) v) records readings ∧
      inferType c.values = readings.foldl (fun t v => t.unify v.dataType) .null ∧
      c.values =
        if inferType c.values = .utf8 then
          List.zipWith (fun r v => reader.text (r.lookup c.name) v) records readings
        else readings.map (Scalar.coerce (inferType c.values))

/-- A reading that is as the reader says, and that has a text if it is there. -/
structure Gives (reader : Reader α) (x : Option α) (v : Scalar) : Prop where
  reads : reader.reads x v
  null_iff : v.isNull = true ↔ reader.lacks x
  isNull_text : (reader.text x v).isNull = v.isNull
  dataType_text : v.isNull = false → (reader.text x v).dataType = .utf8

variable {reader : Reader α} {cell : Option α → Scalar} {records : List (List (String × α))} {name : String}

/-- The column of what the records have under a name. -/
def column (reader : Reader α) (cell : Option α → Scalar) (records : List (List (String × α)))
    (name : String) : Column :=
  ⟨name, settled (records.map fun r => reader.text (r.lookup name) (cell (r.lookup name)))
    (records.map fun r => cell (r.lookup name))⟩

section Column

variable (h : ∀ r ∈ records, reader.Gives (r.lookup name) (cell (r.lookup name)))
include h

theorem dataType_texts : ∀ v ∈ records.map fun r => reader.text (r.lookup name) (cell (r.lookup name)),
    v.isNull = false → v.dataType = .utf8 :=
  List.forall_mem_map.2 fun r hr hn => (h r hr).dataType_text ((h r hr).isNull_text ▸ hn)

theorem isNull_texts :
    (records.map fun r => reader.text (r.lookup name) (cell (r.lookup name))).map Scalar.isNull =
      (records.map fun r => cell (r.lookup name)).map Scalar.isNull := by
  rw [List.map_map, List.map_map]
  exact List.map_congr_left fun r hr => (h r hr).isNull_text

theorem uniform_column : Uniform (reader.column cell records name).values :=
  uniform_settled (dataType_texts h)

theorem null_iff_column : List.Forall₂ (fun r v => Scalar.isNull v = true ↔ reader.lacks (r.lookup name))
    records (reader.column cell records name).values := by
  have hsame := (isNull_settled (isNull_texts h)).symm
  rw [List.map_map, ← List.forall₂_eq_eq_eq, List.forall₂_map_left_iff, List.forall₂_map_right_iff,
    List.forall₂_iff_zip] at hsame
  refine List.forall₂_iff_zip.2 ⟨hsame.1, fun {r v} hmem => ?_⟩
  rw [← hsame.2 hmem]
  exact (h r (List.of_mem_zip hmem).1).null_iff

theorem holds_column : reader.Holds records (reader.column cell records name) := by
  have htype := inferType_settled (dataType_texts h) (isNull_texts h)
  refine ⟨_, ?_, htype, ?_⟩
  · rw [List.forall₂_map_right_iff, List.forall₂_same]
    exact fun r hr => (h r hr).reads
  · rw [List.zipWith_map_right, List.zipWith_self]
    change settled _ _ = _
    rw [column, htype, settled]

end Column
end Reader

/-- A table has been read from records, each a list of members under names. -/
structure Table.IsReadFrom (reader : Reader α) (names : List String) (records : List (List (String × α)))
    (t : Table) : Prop where
  valid : t.Valid
  names_eq : t.names = names
  rowCount : t.columns ≠ [] → t.rowCount = records.length
  uniform : ∀ c ∈ t.columns, Uniform c.values
  settled : t.coerce t.inferSchema = t
  /-- A cell is missing just if there is no value under its name. -/
  null_iff : ∀ c ∈ t.columns,
    List.Forall₂ (fun r v => Scalar.isNull v = true ↔ reader.lacks (r.lookup c.name)) records c.values
  /-- Each cell is what its reading becomes in its column. -/
  holds : ∀ c ∈ t.columns, reader.Holds records c

/-- Columns of what the records have under each name make a table. -/
theorem Table.ofColumns_isReadFrom (reader : Reader α) (cell : Option α → Scalar)
    (records : List (List (String × α))) {names : List String} (hn : names.Nodup)
    (h : ∀ name ∈ names, ∀ r ∈ records, reader.Gives (r.lookup name) (cell (r.lookup name))) :
    ∃ t, Table.ofColumns (names.map (reader.column cell records)) = .ok t ∧
      t.IsReadFrom reader names records := by
  have hnames : (Table.mk (names.map (reader.column cell records))).names = names := by
    rw [Table.names, List.map_map]
    exact List.map_id _
  have hnull : ∀ c ∈ names.map (reader.column cell records), List.Forall₂
      (fun r v => Scalar.isNull v = true ↔ reader.lacks (r.lookup c.name)) records c.values :=
    List.forall_mem_map.2 fun name hname => Reader.null_iff_column (h name hname)
  have huniform : ∀ c ∈ names.map (reader.column cell records), Uniform c.values :=
    List.forall_mem_map.2 fun name hname => Reader.uniform_column (h name hname)
  have hvalid : (Table.mk (names.map (reader.column cell records))).Valid :=
    ⟨Table.level_of_lengths records.length fun c hc => (hnull c hc).length_eq.symm, hnames.symm ▸ hn⟩
  refine ⟨_, Table.ofColumns_eq_ok.2 ⟨rfl, hvalid⟩, hvalid, hnames, fun hne => ?_, huniform,
    Table.coerce_inferSchema_of_uniform hvalid huniform, hnull,
    List.forall_mem_map.2 fun name hname => Reader.holds_column (h name hname)⟩
  obtain ⟨c, hc⟩ := List.exists_mem_of_ne_nil _ hne
  rw [← hvalid.1 c hc, (hnull c hc).length_eq]

/-! ## Comma-separated text -/

namespace Csv

variable {raw : List String} {header : List String} {rest : List (List String)}

/-- A field in a column of texts. -/
def textCell (raw : String) : Scalar := if raw = "" then .null else .text raw

/-- Fields are read as they are written. An empty one stands for no value. -/
def reader : Reader String where
  lacks := (· = some "")
  reads field v := ∃ raw, field = some raw ∧ Reading raw v
  text field _ := textCell (field.getD "")

/-- The value of what is found under a name. -/
def valueOf (field : Option String) : Scalar := fieldValue (field.getD "")

/-- A field is read as it is written. -/
theorem gives_valueOf (raw : String) : reader.Gives (some raw) (valueOf (some raw)) := by
  have hreading := reading_fieldValue raw
  have htext : (textCell raw).isNull = true ↔ raw = "" := by
    rw [textCell]
    split <;> simp [Scalar.isNull, *]
  refine ⟨⟨raw, rfl, hreading⟩, hreading.isNull_iff.trans Option.some_inj.symm,
    Bool.eq_iff_iff.2 (htext.trans hreading.isNull_iff.symm), fun hn => ?_⟩
  change (textCell raw).dataType = _
  rw [textCell, if_neg fun he => ?_]
  · rfl
  · rw [valueOf, Option.getD_some, hreading.isNull_iff.2 he] at hn
    cases hn

theorem columnValues_eq (raw : List String) :
    columnValues raw = settled (raw.map textCell) (raw.map fieldValue) := by
  rw [columnValues, settled]
  split
  · rename_i h
    rw [if_pos h]
    simp only [String.isEmpty_iff]
    rfl
  · rename_i h
    rw [if_neg (by rw [h]; decide), h]
  · rename_i h
    rw [if_neg (by rw [h]; decide), h]
  · rename_i ht hi hf
    rw [if_neg ht, map_coerce_eq hi hf]

/-- The fields of a record are found under the names of the header. -/
theorem lookup_zip {α : Type} {names : List String} {fields : List α} (hn : names.Nodup)
    (hl : fields.length = names.length) {i : Nat} (hi : i < names.length) :
    (names.zip fields).lookup names[i] = some fields[i] := by
  induction names generalizing fields i with
  | nil => cases hi
  | cons n names ih =>
    obtain ⟨f, fields, rfl⟩ := List.exists_cons_of_length_eq_add_one hl
    rw [List.nodup_cons] at hn
    cases i with
    | zero => exact List.lookup_cons_self
    | succ i =>
      have hi' : i < names.length := Nat.lt_of_succ_lt_succ hi
      have hne : (names[i] == n) = false := by
        rw [beq_eq_false_iff_ne]
        rintro rfl
        exact hn.1 (List.getElem_mem hi')
      rw [List.zip_cons_cons, List.getElem_cons_succ, List.lookup_cons, hne]
      exact ih hn.2 (Nat.succ.inj hl) hi'

/-- The columns of a document. -/
def columnsOf (header : List String) (rest : List (List String)) : List Column :=
  header.zipIdx.map fun (name, i) => ⟨name, columnValues (rest.map fun r => r.getD i "")⟩

theorem columnsOf_eq (hn : header.Nodup) (hw : ∀ r ∈ rest, r.length = header.length) :
    columnsOf header rest = header.map (reader.column valueOf (rest.map header.zip)) := by
  rw [columnsOf, ← List.zipIdx_map_fst 0 header, List.map_map, List.zipIdx_map_fst]
  refine List.map_congr_left fun (name, i) hp => ?_
  have hi : i < header.length := (List.mem_zipIdx' hp).1
  have hname : name = header[i] := (List.mem_zipIdx' hp).2
  subst hname
  have hfound (g : Option String → Scalar) : (rest.map header.zip).map (fun r => g (r.lookup header[i])) =
      (rest.map fun r => r.getD i "").map fun raw => g (some raw) := by
    rw [List.map_map, List.map_map]
    refine List.map_congr_left fun r hr => ?_
    have hir : i < r.length := (hw r hr).symm ▸ hi
    rw [Function.comp_apply, Function.comp_apply, lookup_zip hn (hw r hr) hi, List.getD_eq_getElem _ _ hir]
  change Column.mk header[i] (columnValues _) = reader.column valueOf _ header[i]
  rw [columnValues_eq, Reader.column, hfound valueOf, hfound fun x => reader.text x (valueOf x)]
  rfl

/-- A column of texts has the fields as they are. -/
theorem textCells_of_holds {records : List (List (String × String))} {c : Column}
    (h : reader.Holds records c) (ht : inferType c.values = .utf8) :
    List.Forall₂ (fun r v => ∀ raw, r.lookup c.name = some raw → raw ≠ "" → v = .text raw)
      records c.values := by
  obtain ⟨readings, hreads, -, hcells⟩ := h
  rw [if_pos ht] at hcells
  rw [hcells]
  clear hcells
  induction hreads with
  | nil => exact .nil
  | cons _ _ ih =>
    refine .cons (fun raw hr hne => ?_) ih
    dsimp only
    rw [hr]
    exact if_neg hne

/-- **Text whose records are as wide as its first one makes a table**, if the first one does not repeat a
name. -/
theorem readText_isReadFrom {text : String} {rs : List (List String)}
    (h : records (withoutMark text.toList) = rs) (hn : (rs.headD []).Nodup)
    (hw : ∀ r ∈ rs, r.length = (rs.headD []).length) :
    ∃ t, readText text = .ok t ∧
      t.IsReadFrom reader (rs.headD []) (rs.tail.map (rs.headD []).zip) ∧
      ∀ c ∈ t.columns, inferType c.values = .utf8 →
        List.Forall₂ (fun r v => ∀ raw, r.lookup c.name = some raw → raw ≠ "" → v = .text raw)
          (rs.tail.map (rs.headD []).zip) c.values := by
  have gives (header : List String) (rest : List (List String)) (hn : header.Nodup)
      (hw : ∀ r ∈ rest, r.length = header.length) :
      ∀ name ∈ header, ∀ r ∈ rest.map header.zip,
        reader.Gives (r.lookup name) (valueOf (r.lookup name)) := fun name hname => by
    refine List.forall_mem_map.2 fun r hr => ?_
    obtain ⟨i, hi, rfl⟩ := List.getElem_of_mem hname
    rw [lookup_zip hn (hw r hr) hi]
    exact gives_valueOf _
  cases rs with
  | nil =>
    obtain ⟨t, hmade, hread⟩ := Table.ofColumns_isReadFrom reader valueOf [] .nil nofun
    obtain rfl := (Table.ofColumns_eq_ok.1 hmade).1
    refine ⟨_, ?_, hread, nofun⟩
    rw [readText, h]
    rfl
  | cons header rest =>
    rw [List.headD_cons] at hn hw ⊢
    rw [List.tail_cons]
    have hw' : ∀ r ∈ rest, r.length = header.length := fun r hr => hw r (List.mem_cons_of_mem _ hr)
    obtain ⟨t, hmade, hread⟩ := Table.ofColumns_isReadFrom reader valueOf (rest.map header.zip) hn
      (gives header rest hn hw')
    refine ⟨t, ?_, hread, fun c hc => textCells_of_holds (hread.holds c hc)⟩
    have hwide : (rest.any fun r => r.length != header.length) = false := by
      rw [List.any_eq_false]
      exact fun r hr => by simp [hw' r hr]
    rw [readText, h]
    dsimp only
    rw [hwide, if_neg Bool.false_ne_true]
    change (Table.ofColumns (columnsOf header rest)).mapError _ = _
    rw [columnsOf_eq hn hw', hmade]
    rfl

end Csv

/-! ## Records -/

/-- The elements of a list, each once, in the order in which they first appear. -/
structure IsFirsts {α : Type} [BEq α] (firsts xs : List α) : Prop where
  mem_iff : ∀ x, x ∈ firsts ↔ x ∈ xs
  ordered : firsts.Pairwise fun x y => xs.idxOf x < xs.idxOf y

theorem IsFirsts.nodup {α : Type} [BEq α] {firsts xs : List α} (h : IsFirsts firsts xs) : firsts.Nodup :=
  h.ordered.imp fun {x y} hlt he => by
    rw [he] at hlt
    exact Nat.lt_irrefl _ hlt

theorem isFirsts_eraseDups {α : Type} [BEq α] [LawfulBEq α] (xs : List α) :
    IsFirsts xs.eraseDups xs := by
  refine ⟨fun x => List.mem_eraseDups, ?_⟩
  induction xs using List.reverseRecOn with
  | nil => exact .nil
  | append_singleton xs x ih =>
    have earlier : xs.eraseDups.Pairwise fun y z => (xs ++ [x]).idxOf y < (xs ++ [x]).idxOf z := by
      refine ih.imp_of_mem fun hy hz hlt => ?_
      rw [List.mem_eraseDups] at hy hz
      rwa [List.idxOf_append_of_mem hy, List.idxOf_append_of_mem hz]
    rw [List.eraseDups_append]
    by_cases hx : x ∈ xs
    · have hnone : [x].removeAll xs = [] := by simp [List.removeAll, hx]
      rw [hnone, List.eraseDups_nil, List.append_nil]
      exact earlier
    · have hnew : [x].removeAll xs = [x] := by simp [List.removeAll, hx]
      rw [hnew, List.pairwise_append]
      refine ⟨earlier, List.pairwise_singleton _ _, fun y hy z hz => ?_⟩
      obtain rfl : z = x := by simpa using hz
      rw [List.mem_eraseDups] at hy
      rw [List.idxOf_append_of_mem hy, List.idxOf_append_of_notMem hx]
      exact Nat.lt_of_lt_of_le (List.idxOf_lt_length_of_mem hy) (Nat.le_add_right _ _)

namespace Records

/-- Values are read by their form. One that is absent or null stands for no value. -/
def reader : Reader Json.Value where
  lacks x := x = none ∨ x = some .null
  reads := Reading
  text _ v :=
    match v with
    | .null => .null
    | .text s => .text s
    | v => .text v.display

/-- A value is read by its form. -/
theorem gives_cellAt (x : Option Json.Value) : reader.Gives x (cellAt x) := by
  have hreading := reading_cellAt x
  refine ⟨hreading, hreading.isNull_iff, ?_, ?_⟩
  · cases cellAt x <;> rfl
  · cases cellAt x <;> first | exact fun _ => rfl | nofun

theorem columnValues_eq (values : List Scalar) :
    columnValues values = settled (values.map asText) values := by
  rw [columnValues, settled]
  split
  · rename_i h
    rw [if_neg (by rw [h]; decide), h]
  · rename_i h
    rw [if_neg (by rw [h]; decide), h]
  · rename_i h
    rw [if_pos h]
  · rename_i hi hf ht
    rw [if_neg ht, map_coerce_eq hi hf]

theorem members_objects (records : List (List (String × Json.Value))) :
    members (records.map .object) = .ok records := by
  induction records with
  | nil => rfl
  | cons r rest ih =>
    rw [List.map_cons, members, ih]
    rfl

/-- What a record holds under a name, as a cell. -/
def cellOf (name : String) (record : List (String × Json.Value)) : Scalar :=
  match record.find? (·.1 == name) with
  | some (_, v) => cell v
  | none => .null

theorem cellOf_eq (name : String) (record : List (String × Json.Value)) :
    cellOf name record = cellAt (record.lookup name) := by
  rw [cellOf]
  induction record with
  | nil => rfl
  | cons m rest ih =>
    obtain ⟨key, v⟩ := m
    rw [List.find?_cons, List.lookup_cons, BEq.comm (a := name)]
    cases key == name with
    | true => rfl
    | false => exact ih

theorem text_reader (x : Option Json.Value) (v : Scalar) : reader.text x v = asText v := by
  cases v <;> rfl

theorem column_eq (records : List (List (String × Json.Value))) :
    (fun name => Column.mk name (columnValues (records.map (cellOf name)))) =
      reader.column cellAt records := by
  funext name
  rw [columnValues_eq, Reader.column, List.map_map, funext (cellOf_eq name)]
  simp only [text_reader]
  rfl

/-- **An array of objects makes a table**, with a column for each key. -/
theorem readText_isReadFrom {text : String} {records : List (List (String × Json.Value))}
    (h : (Json.parse? maxDepth text).bind Json.Document.value? = some (.array (records.map .object))) :
    ∃ t names, readText text = .ok t ∧ t.IsReadFrom reader names records ∧
      IsFirsts names (records.flatMap fun r => r.map (·.1)) := by
  have hfirsts := isFirsts_eraseDups (records.flatMap fun r => r.map (·.1))
  obtain ⟨t, hmade, hread⟩ := Table.ofColumns_isReadFrom reader cellAt records hfirsts.nodup
    fun _ _ _ _ => gives_cellAt _
  refine ⟨t, _, ?_, hread, hfirsts⟩
  rw [readText, h]
  change (do
    let rs ← members (records.map .object)
    _ : Except StoreError Table) = _
  rw [members_objects]
  rw [← column_eq] at hmade
  change (Table.ofColumns (List.map (fun name => Column.mk name (columnValues (records.map (cellOf name))))
    _)).mapError _ = _
  rw [hmade]
  rfl

end Records

/-- **Documents are read into tables of uniform columns.** Comma-separated text has its column names in
its first record, an array of objects has a column for each key. What stands in a cell is what its field or
its value is read as, brought to the type that all of the column agree on. -/
theorem read_isReadFrom {bytes : ByteArray} {text : String}
    (htext : String.fromUTF8? bytes = some text) :
    (∀ rs, Csv.records (Csv.withoutMark text.toList) = rs → (rs.headD []).Nodup →
      (∀ r ∈ rs, r.length = (rs.headD []).length) →
        ∃ t, Csv.read bytes = .ok t ∧
          t.IsReadFrom Csv.reader (rs.headD []) (rs.tail.map (rs.headD []).zip) ∧
          ∀ c ∈ t.columns, inferType c.values = .utf8 →
            List.Forall₂ (fun r v => ∀ raw, r.lookup c.name = some raw → raw ≠ "" → v = .text raw)
              (rs.tail.map (rs.headD []).zip) c.values) ∧
    ∀ records, (Json.parse? Records.maxDepth text).bind Json.Document.value? =
        some (.array (records.map .object)) →
      ∃ t names, Records.read bytes = .ok t ∧ t.IsReadFrom Records.reader names records ∧
        IsFirsts names (records.flatMap fun r => r.map (·.1)) := by
  refine ⟨fun rs h hn hw => ?_, fun records h => ?_⟩
  · rw [Csv.read, htext]
    exact Csv.readText_isReadFrom h hn hw
  · rw [Records.read, htext]
    exact Records.readText_isReadFrom h

/-- A header with two records, whose columns are of floats, of texts and of truth values. -/
def scoresText : String := "id,note,ok\n1,true,false\n2.5,x,\n"

/-- What is read from it. -/
def scoresTable : Table :=
  ⟨[⟨"id", [.float ⟨0x3ff0000000000000⟩, .float ⟨0x4004000000000000⟩]⟩,
    ⟨"note", [.text "true", .text "x"]⟩, ⟨"ok", [.bool false, .null]⟩]⟩

/-- Two objects that do not have the same keys. -/
def recordsText : String := "[\x7b\"a\":true,\"c\":[null]\x7d,\x7b\"b\":null,\"a\":\"x\"\x7d]"

/-- What is read from them. -/
def recordsTable : Table :=
  ⟨[⟨"a", [.text "true", .text "x"]⟩, ⟨"c", [.text "[null]", .null]⟩, ⟨"b", [.null, .null]⟩]⟩

/-- Numbers widen to floats, and beside a text all are texts; what is nested is a text by itself. -/
theorem read_isReadFrom_cells :
    Csv.read scoresText.toUTF8 = .ok scoresTable ∧
      scoresTable.IsReadFrom Csv.reader ["id", "note", "ok"]
        [[("id", "1"), ("note", "true"), ("ok", "false")], [("id", "2.5"), ("note", "x"), ("ok", "")]] ∧
      Records.read recordsText.toUTF8 = .ok recordsTable ∧
      recordsTable.IsReadFrom Records.reader ["a", "c", "b"]
        [[("a", .bool true), ("c", .array [.null])], [("b", .null), ("a", .string "x")]] := by
  have decoded (s : String) : String.fromUTF8? s.toUTF8 = some s := dif_pos s.isValidUTF8
  obtain ⟨t, ht, hread, -⟩ := (read_isReadFrom (decoded scoresText)).1
    [["id", "note", "ok"], ["1", "true", "false"], ["2.5", "x", ""]] (by decide) (by decide) (by decide)
  obtain ⟨u, names, hu, hread', -⟩ := (read_isReadFrom (decoded recordsText)).2
    [[("a", .bool true), ("c", .array [.null])], [("b", .null), ("a", .string "x")]] (by cbv)
  have hcells : (Csv.readText scoresText).toOption = some scoresTable := by decide +kernel
  have hcells' : (Records.readText recordsText).toOption = some recordsTable := by decide +kernel
  rw [← show Csv.read scoresText.toUTF8 = Csv.readText scoresText by rw [Csv.read, decoded], ht] at hcells
  rw [← show Records.read recordsText.toUTF8 = Records.readText recordsText by rw [Records.read, decoded],
    hu] at hcells'
  obtain rfl : t = scoresTable := Option.some.inj hcells
  obtain rfl : u = recordsTable := Option.some.inj hcells'
  obtain rfl : recordsTable.names = names := hread'.names_eq
  exact ⟨ht, hread, hu, hread'⟩

end LazyQuery
