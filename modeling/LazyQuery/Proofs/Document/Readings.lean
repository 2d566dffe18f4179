import LazyQuery.Document.Csv
import LazyQuery.Document.Records
import LazyQuery.Proofs.Text.Numerals

/-!
# Readings

What a field of a record, or a value under a key, is read as by itself. `Csv.Reading` says it by how the field is
written, `Records.Reading` by the form of the value; each has just one reading, and it is the one that the reader
takes (`Csv.reading_iff`, `Records.reading_iff`).
-/

set_option autoImplicit false

namespace LazyQuery

/-! ## Fields of comma-separated text -/

namespace Csv

open Decimal

/-- The words that stand for a truth value. -/
def words : Bool → List String
  | true => ["true", "True", "TRUE"]
  | false => ["false", "False", "FALSE"]

/-- What a field is read as: nothing, an integer that fits in a word, any other numeral, a truth value, or else
its text. -/
inductive Reading : String → Scalar → Prop
  | missing : Reading "" .null
  | integer {raw : String} {i : Int64} (h : WritesInteger i.toInt raw.toList) : Reading raw (.int i)
  | float {raw : String} {x : Double} (hi : ∀ i : Int64, ¬ WritesInteger i.toInt raw.toList)
      (h : WritesFloat x raw.toList) : Reading raw (.float x)
  | bool {raw : String} {b : Bool} (h : raw ∈ words b) : Reading raw (.bool b)
  | text {raw : String} (hne : raw ≠ "") (hi : ∀ i : Int64, ¬ WritesInteger i.toInt raw.toList)
      (hx : ∀ x, ¬ WritesFloat x raw.toList) (hb : ∀ b, raw ∉ words b) : Reading raw (.text raw)

variable {raw : String} {v : Scalar}

theorem integer?_eq_none : integer? raw = none ↔ ∀ i : Int64, ¬ WritesInteger i.toInt raw.toList := by
  rw [Option.eq_none_iff_forall_ne_some]
  exact forall_congr' fun i => not_congr integer?_eq_some

theorem float?_eq_none : float? raw = none ↔ ∀ x, ¬ WritesFloat x raw.toList := by
  rw [Option.eq_none_iff_forall_ne_some]
  exact forall_congr' fun x => not_congr float?_eq_some

theorem mem_words_true : raw ∈ words true ↔ raw = "true" ∨ raw = "True" ∨ raw = "TRUE" := by
  simp [words]

theorem mem_words_false : raw ∈ words false ↔ raw = "false" ∨ raw = "False" ∨ raw = "FALSE" := by
  simp [words]

theorem fieldValue_of_integer {i : Int64} (hi : integer? raw = some i) : fieldValue raw = .int i := by
  rw [fieldValue, if_neg, hi]
  rw [String.isEmpty_iff]
  rintro rfl
  cases hi

theorem fieldValue_of_float {x : Double} (hi : integer? raw = none) (hx : float? raw = some x) :
    fieldValue raw = .float x := by
  rw [fieldValue, if_neg, hi]
  · dsimp only
    rw [hx]
  · rw [String.isEmpty_iff]
    rintro rfl
    cases hx

/-- Of a field that is there and no numeral, the reader looks whether it is a word. -/
theorem fieldValue_of_none (hraw : raw ≠ "") (hi : integer? raw = none) (hx : float? raw = none) :
    fieldValue raw =
      if raw ∈ words true then .bool true else if raw ∈ words false then .bool false else .text raw := by
  rw [fieldValue, if_neg (by simpa using hraw), hi]
  dsimp only
  rw [hx]
  simp only [mem_words_true, mem_words_false]

theorem reading_fieldValue (raw : String) : Reading raw (fieldValue raw) := by
  by_cases hraw : raw = ""
  · subst hraw
    exact .missing
  cases hi : integer? raw with
  | some i => exact fieldValue_of_integer hi ▸ .integer (integer?_eq_some.1 hi)
  | none =>
    have hno := integer?_eq_none.1 hi
    cases hx : float? raw with
    | some x => exact fieldValue_of_float hi hx ▸ .float hno (float?_eq_some.1 hx)
    | none =>
      rw [fieldValue_of_none hraw hi hx]
      split
      · exact .bool ‹_›
      · split
        · exact .bool ‹_›
        · exact .text hraw hno (float?_eq_none.1 hx) (Bool.forall_bool.2 ⟨‹_›, ‹_›⟩)

/-- **A field has one reading, and is read so.** -/
theorem reading_iff : Reading raw v ↔ fieldValue raw = v := by
  constructor
  · intro h
    cases h with
    | missing => rfl
    | integer h => exact fieldValue_of_integer (integer?_eq_some.2 h)
    | float hi h => exact fieldValue_of_float (integer?_eq_none.2 hi) (float?_eq_some.2 h)
    | @bool _ b h =>
      have hwords : ∀ b, ∀ raw ∈ words b, fieldValue raw = .bool b := by decide +kernel
      exact hwords b raw h
    | text hne hi hx hb =>
      rw [fieldValue_of_none hne (integer?_eq_none.2 hi) (float?_eq_none.2 hx), if_neg (hb true),
        if_neg (hb false)]
  · rintro rfl
    exact reading_fieldValue raw

/-- Just the empty field is missing. -/
theorem Reading.isNull_iff (h : Reading raw v) : v.isNull = true ↔ raw = "" := by
  cases h with
  | missing => exact iff_of_true rfl rfl
  | integer h =>
    refine iff_of_false Bool.false_ne_true ?_
    rintro rfl
    cases integer?_eq_some.2 h
  | float _ h =>
    refine iff_of_false Bool.false_ne_true ?_
    rintro rfl
    cases float?_eq_some.2 h
  | @bool _ b h =>
    refine iff_of_false Bool.false_ne_true ?_
    rintro rfl
    revert h
    cases b <;> decide
  | text hne => exact iff_of_false Bool.false_ne_true hne

end Csv

/-! ## Values of records -/

namespace Records

/-- What a value that may be absent is read as. An integer that fits in no word is a float, and what is nested
is kept as its text. -/
inductive Reading : Option Json.Value → Scalar → Prop
  | absent : Reading none .null
  | null : Reading (some .null) .null
  | bool (b : Bool) : Reading (some (.bool b)) (.bool b)
  | word (i : Int64) : Reading (some (.number (.int i.toInt))) (.int i)
  | large {i : Int} (h : ¬ Word.Fits i) : Reading (some (.number (.int i))) (.float (.ofFloat (Float.ofInt i)))
  | float (x : Float) : Reading (some (.number (.float x))) (.float (.ofFloat x))
  | string (s : String) : Reading (some (.string s)) (.text s)
  | array (items : List Json.Value) : Reading (some (.array items)) (.text (Json.Value.array items).render)
  | object (members : List (String × Json.Value)) :
    Reading (some (.object members)) (.text (Json.Value.object members).render)

/-- The cell of a value that may be absent. -/
def cellAt : Option Json.Value → Scalar
  | some v => cell v
  | none => .null

theorem reading_cellAt (x : Option Json.Value) : Reading x (cellAt x) := by
  match x with
  | none => exact .absent
  | some .null => exact .null
  | some (.bool b) => exact .bool b
  | some (.string s) => exact .string s
  | some (.array items) => exact .array items
  | some (.object members) => exact .object members
  | some (.number (.float x)) => exact .float x
  | some (.number (.int i)) =>
    rw [cellAt, cell, numberCell]
    by_cases hi : Word.Fits i
    · obtain ⟨w, hw, rfl⟩ := Word.exists_fit? hi
      rw [hw]
      exact .word w
    · rw [Word.fit?_eq_none hi]
      exact .large hi

/-- Just a value that is absent or null is missing. -/
theorem Reading.isNull_iff {x : Option Json.Value} {v : Scalar} (h : Reading x v) :
    v.isNull = true ↔ x = none ∨ x = some .null := by
  cases h <;> simp [Scalar.isNull]

/-- **A value has one reading, and is read so.** -/
theorem reading_iff {x : Option Json.Value} {v : Scalar} : Reading x v ↔ cellAt x = v := by
  constructor
  · intro h
    cases h with
    | word i => rw [cellAt, cell, numberCell, Word.fit?_toInt]
    | large h => rw [cellAt, cell, numberCell, Word.fit?_eq_none h]
    | _ => rfl
  · rintro rfl
    exact reading_cellAt x

end Records
end LazyQuery
