import LazyQuery.Decimal.Read
import LazyQuery.Proofs.Scalar.Word
import LazyQuery.Sql.Eval

/-!
# Reading names and literals back

Whatever stands in a name or in a text, what is put between quotes is read back as it is, and what
follows it is left alone: no text breaks out of its quotes.

* `quoted?` reads what stands between quotes at the front of some characters. `quoted?_ident` and
  `quoted?_literal` say what it finds of names and texts, and `qualified_inj` that the text of a column
  with its table names just these.
* `literalValue?` reads a text as a literal. `literalValue?_literal` says that it finds what is stored of
  the value, for all but floats (`Scalar.IsExact`).
-/

set_option autoImplicit false

namespace LazyQuery

namespace Scalar

/-- The value is no float, an undefined one aside. -/
def IsDiscrete (v : Scalar) : Prop := ∀ x, v = .float x → x.isNaN = true

/-- Is the value a text with a zero character in it? -/
def holdsZero : Scalar → Bool
  | text s => s.toList.contains '\x00'
  | _ => false

end Scalar

namespace Sql

/-! ## Quotes -/

/-- What stands before the closing quote, and what follows it. That is the first quote with no further
one behind it; two of them stand for one. -/
def quotedRest? (q : Char) : List Char → Option (List Char × List Char)
  | [] => none
  | [c] => if c = q then some ([], []) else none
  | c :: d :: rest =>
    if c ≠ q then (quotedRest? q (d :: rest)).map fun p => (c :: p.1, p.2)
    else if d = q then (quotedRest? q rest).map fun p => (q :: p.1, p.2)
    else some ([], d :: rest)

/-- The text between quotes at the front of some characters, and what follows it. -/
def quoted? (q : Char) : List Char → Option (String × List Char)
  | [] => none
  | c :: rest => if c = q then (quotedRest? q rest).map fun p => (String.ofList p.1, p.2) else none

variable {q : Char} {s t c t' c' : String} {k : List Char}

/-- A quote closes unless another one follows. -/
theorem quotedRest?_close (hk : k.head? ≠ some q) : quotedRest? q (q :: k) = some ([], k) := by
  cases k with
  | nil => exact if_pos rfl
  | cons d rest =>
    have hd : d ≠ q := fun h => hk (congrArg some h)
    rw [quotedRest?, if_neg (not_not_intro rfl), if_neg hd]

/-- The induction is on the characters between the quotes. -/
theorem quotedRest?_doubled (hk : k.head? ≠ some q) (cs : List Char) :
    quotedRest? q ((cs.flatMap fun c => if c = q then [q, q] else [c]) ++ q :: k) = some (cs, k) := by
  induction cs with
  | nil => exact quotedRest?_close hk
  | cons c cs ih =>
    rw [List.flatMap_cons, List.append_assoc]
    by_cases hc : c = q
    · subst hc
      rw [if_pos rfl, List.cons_append, List.singleton_append, quotedRest?, if_neg (not_not_intro rfl),
        if_pos rfl, ih]
      rfl
    · rw [if_neg hc, List.singleton_append]
      -- There is a character behind this one: the closing quote at least.
      obtain ⟨d, rest, hrest⟩ := List.exists_cons_of_ne_nil
        (List.append_ne_nil_of_right_ne_nil (cs.flatMap fun c => if c = q then [q, q] else [c])
          (List.cons_ne_nil q k))
      rw [hrest] at ih ⊢
      rw [quotedRest?, if_pos hc, ih]
      rfl

theorem doubled_of_not_mem (h : q ∉ s.toList) : doubled q s = s := by
  have hsame : ∀ cs : List Char, q ∉ cs → (cs.flatMap fun c => if c = q then [q, q] else [c]) = cs := by
    intro cs hcs
    induction cs with
    | nil => rfl
    | cons c cs ih =>
      rw [List.mem_cons, not_or] at hcs
      rw [List.flatMap_cons, if_neg (Ne.symm hcs.1), ih hcs.2, List.singleton_append]
  rw [doubled, hsame _ h, String.ofList_toList]

theorem mem_doubled {c : Char} : c ∈ (doubled q s).toList ↔ c ∈ s.toList := by
  simp only [doubled, String.toList_ofList, List.mem_flatMap]
  constructor
  · rintro ⟨d, hd, hc⟩
    split at hc
    · simp_all
    · exact List.mem_singleton.1 hc ▸ hd
  · intro hc
    refine ⟨c, hc, ?_⟩
    split <;> simp_all

theorem quoted?_doubled (hk : k.head? ≠ some q) (s : String) :
    quoted? q (q :: ((doubled q s).toList ++ q :: k)) = some (s, k) := by
  rw [quoted?, if_pos rfl, doubled, String.toList_ofList, quotedRest?_doubled hk, Option.map_some,
    String.ofList_toList]

/-- The text of a name has its characters, and quotes. -/
theorem mem_ident {c : Char} : c ∈ (ident s).toList ↔ c = '"' ∨ c ∈ s.toList := by
  rw [ident, String.toList_append, String.toList_append, List.mem_append, List.mem_append, mem_doubled]
  simp only [show "\"".toList = ['"'] from rfl, List.mem_singleton]
  exact ⟨fun h => h.elim id .inl, fun h => .inl h⟩

/-- **A name is read back as it is**, and what follows it is left. -/
theorem quoted?_ident (hk : k.head? ≠ some '"') (s : String) :
    quoted? '"' ((ident s).toList ++ k) = some (s, k) := by
  rw [← quoted?_doubled hk s, ident, String.toList_append, String.toList_append, List.append_assoc,
    List.append_assoc]
  rfl

/-- **A text is read back as it is**, and what follows it is left. -/
theorem quoted?_literal (hk : k.head? ≠ some '\'') (s : String) :
    quoted? '\'' ((literal (.text s)).toList ++ k) = some (s, k) := by
  rw [← quoted?_doubled hk s, literal, String.toList_append, String.toList_append, List.append_assoc,
    List.append_assoc]
  rfl

/-- **A column with its table is told by its text.** -/
theorem qualified_inj : qualified t c = qualified t' c' ↔ t = t' ∧ c = c' := by
  constructor
  · intro h
    have hread (t c : String) : quoted? '"' (qualified t c).toList = some (t, ('.' :: (ident c).toList)) := by
      rw [qualified, String.toList_append, String.toList_append, List.append_assoc]
      exact quoted?_ident (k := '.' :: (ident c).toList) (fun h => absurd (Option.some.inj h) (by decide)) t
    have hsame := (hread t c).symm.trans ((congrArg (quoted? '"' ·.toList) h).trans (hread t' c'))
    simp only [Option.some.injEq, Prod.mk.injEq, List.cons.injEq, true_and] at hsame
    have hcolumn (c : String) : quoted? '"' (ident c).toList = some (c, []) := by
      simpa using quoted?_ident (k := []) (by decide) c
    have hc := (hcolumn c).symm.trans ((congrArg (quoted? '"') hsame.2).trans (hcolumn c'))
    simp only [Option.some.injEq, Prod.mk.injEq, and_true] at hc
    exact ⟨hsame.1, hc⟩
  · rintro ⟨rfl, rfl⟩
    rfl

/-! ## Texts that are joined -/

/-- A character of parts that are joined is one of a part, or of what stands between them. -/
theorem mem_intercalate {c : Char} {sep : String} {parts : List String}
    (h : c ∈ (sep.intercalate parts).toList) : c ∈ sep.toList ∨ ∃ p ∈ parts, c ∈ p.toList := by
  induction parts with
  | nil => simp at h
  | cons p rest ih =>
    cases rest with
    | nil =>
      rw [String.intercalate_singleton] at h
      exact .inr ⟨p, List.mem_cons_self, h⟩
    | cons q rest =>
      rw [String.intercalate_cons_cons, String.toList_append, String.toList_append, List.mem_append,
        List.mem_append] at h
      obtain (h | h) | h := h
      · exact .inr ⟨p, List.mem_cons_self, h⟩
      · exact .inl h
      · exact (ih h).imp_right fun ⟨p', hp', hc⟩ => ⟨p', List.mem_cons_of_mem _ hp', hc⟩

theorem mem_intercalate_of_mem {c : Char} (sep : String) {p : String} {parts : List String}
    (hp : p ∈ parts) (hc : c ∈ p.toList) : c ∈ (sep.intercalate parts).toList := by
  induction parts with
  | nil => cases hp
  | cons q rest ih =>
    cases rest with
    | nil =>
      rw [List.mem_singleton.1 hp] at hc
      rwa [String.intercalate_singleton]
    | cons r rest =>
      rw [String.intercalate_cons_cons, String.toList_append, String.toList_append, List.mem_append,
        List.mem_append]
      rcases List.mem_cons.1 hp with rfl | hp
      · exact .inl (.inl hc)
      · exact .inr (ih hp)

/-! ## Integers -/

theorem digitsValue_toDigits (n : Nat) : Decimal.digitsValue (Nat.toDigits 10 n) = n :=
  Nat.ofDigitChars_ten_toDigits

theorem toDigits_isDigit {n : Nat} {c : Char} (h : c ∈ Nat.toDigits 10 n) : c.isDigit = true :=
  Nat.isDigit_of_mem_toDigits (by decide) (by decide) h

/-- Digits have no sign in front. -/
theorem sign_toDigits (n : Nat) : Decimal.sign (Nat.toDigits 10 n) = (false, Nat.toDigits 10 n) := by
  have hdigit : ∀ c ∈ Nat.toDigits 10 n, c.isDigit = true := fun c hc => toDigits_isDigit hc
  unfold Decimal.sign
  split
  · rename_i h
    exact absurd (hdigit '-' (h ▸ List.mem_cons_self)) (by decide)
  · rename_i h
    exact absurd (hdigit '+' (h ▸ List.mem_cons_self)) (by decide)
  · rfl

/-- A sign and digits are read as the number they stand for. -/
theorem integer?_of_sign {negative : Bool} {n : Nat}
    (h : Decimal.sign s.toList = (negative, Nat.toDigits 10 n)) :
    Decimal.integer? s = Word.fit? (if negative then -(n : Int) else n) := by
  have hdigits : ((Nat.toDigits 10 n).isEmpty || !(Nat.toDigits 10 n).all Char.isDigit) = false := by
    rw [Bool.or_eq_false_iff, List.isEmpty_eq_false_iff, Bool.not_eq_false', List.all_eq_true]
    exact ⟨Nat.toDigits_ne_nil, fun c hc => toDigits_isDigit hc⟩
  rw [Decimal.integer?, h]
  dsimp only
  rw [hdigits, if_neg Bool.false_ne_true, digitsValue_toDigits]

/-- **An integer is read back from its text.** -/
theorem integer?_intText (i : Int64) : Decimal.integer? (Scalar.intText i) = some i := by
  rw [Scalar.intText, Int.toString_eq_repr, Int.repr_eq_if]
  by_cases h : 0 ≤ i.toInt
  · have hsign : Decimal.sign i.toInt.toNat.repr.toList = (false, Nat.toDigits 10 i.toInt.toNat) := by
      rw [Nat.toList_repr, sign_toDigits]
    rw [if_pos h, integer?_of_sign hsign, if_neg Bool.false_ne_true, Int.toNat_of_nonneg h,
      Word.fit?_toInt]
  · have hsign : Decimal.sign ("-" ++ (-i.toInt).toNat.repr).toList =
        (true, Nat.toDigits 10 (-i.toInt).toNat) := by
      rw [String.toList_append, Nat.toList_repr]
      rfl
    rw [if_neg h, integer?_of_sign hsign, if_pos rfl, Int.toNat_of_nonneg (by omega), Int.neg_neg,
      Word.fit?_toInt]

/-- The text of an integer has digits, and a minus sign perhaps. -/
theorem mem_intText {i : Int64} {c : Char} (h : c ∈ (Scalar.intText i).toList) :
    c = '-' ∨ c.isDigit = true := by
  rw [Scalar.intText, Int.toString_eq_repr, Int.repr_eq_if] at h
  split at h
  · rw [Nat.toList_repr] at h
    exact .inr (toDigits_isDigit h)
  · rw [String.toList_append, Nat.toList_repr] at h
    rcases List.mem_append.1 h with h | h
    · exact .inl (List.mem_singleton.1 h)
    · exact .inr (toDigits_isDigit h)

/-! ## Bytes -/

/-- The value of a hexadecimal digit. -/
def hexDigit? (c : Char) : Option Nat :=
  if '0' ≤ c ∧ c ≤ '9' then some (c.toNat - '0'.toNat)
  else if 'A' ≤ c ∧ c ≤ 'F' then some (c.toNat - 'A'.toNat + 10)
  else if 'a' ≤ c ∧ c ≤ 'f' then some (c.toNat - 'a'.toNat + 10)
  else none

/-- The bytes that pairs of hexadecimal digits stand for. -/
def hexBytes? : List Char → Option (List UInt8)
  | [] => some []
  | [_] => none
  | c :: d :: rest => do
    let high ← hexDigit? c
    let low ← hexDigit? d
    let bytes ← hexBytes? rest
    pure (UInt8.ofNat (16 * high + low) :: bytes)

/-- The digits of a byte. -/
theorem toList_hexByte (b : UInt8) : (hexByte b).toList =
    [(Nat.digitChar (b.toNat / 16)).toUpper, (Nat.digitChar (b.toNat % 16)).toUpper] := by
  have hall : ∀ n < 256, (hexByte (UInt8.ofNat n)).toList =
      [(Nat.digitChar (n / 16)).toUpper, (Nat.digitChar (n % 16)).toUpper] := by decide +kernel
  simpa using hall b.toNat b.toNat_lt

theorem hexDigit?_digitChar : ∀ n < 16, hexDigit? (Nat.digitChar n).toUpper = some n := by decide

/-- The text of bytes has digits only. -/
theorem mem_hexBytes {bytes : List UInt8} {c : Char} (h : c ∈ (String.join (bytes.map hexByte)).toList) :
    ∃ n < 16, c = (Nat.digitChar n).toUpper := by
  rw [String.toList_join, List.flatMap_map] at h
  obtain ⟨b, -, hc⟩ := List.mem_flatMap.1 h
  have hb := b.toNat_lt
  rw [toList_hexByte, List.mem_cons, List.mem_singleton] at hc
  rcases hc with hc | hc
  · exact ⟨_, by omega, hc⟩
  · exact ⟨_, by omega, hc⟩

theorem hexBytes?_hexBytes (bytes : List UInt8) :
    hexBytes? (String.join (bytes.map hexByte)).toList = some bytes := by
  rw [String.toList_join, List.flatMap_map]
  induction bytes with
  | nil => rfl
  | cons b rest ih =>
    have hb := b.toNat_lt
    rw [List.flatMap_cons, toList_hexByte, List.cons_append, List.singleton_append, hexBytes?,
      hexDigit?_digitChar _ (by omega), hexDigit?_digitChar _ (by omega), ih]
    change some (UInt8.ofNat (16 * (b.toNat / 16) + b.toNat % 16) :: rest) = _
    rw [Nat.div_add_mod, UInt8.ofNat_toNat]

/-! ## Literals -/

/-- The value that a text is a literal of: `NULL`, an integer, a text between quotes, or bytes between
quotes with an `X` in front. -/
def literalValue? (text : String) : Option Datum :=
  if text = "NULL" then some .null
  else
    match text.toList with
    | 'X' :: rest =>
      match quoted? '\'' rest with
      | some (hex, []) => (hexBytes? hex.toList).map .blob
      | _ => none
    | cs =>
      match quoted? '\'' cs with
      | some (s, []) => some (.text s)
      | some _ => none
      | none => (Decimal.integer? text).map .integer

theorem literalValue?_intText (i : Int64) : literalValue? (Scalar.intText i) = some (.integer i) := by
  have hchars : ∀ c ∈ (Scalar.intText i).toList, c = '-' ∨ c.isDigit = true := fun c => mem_intText
  have hnull : Scalar.intText i ≠ "NULL" := fun h => absurd (hchars 'N' (by rw [h]; decide)) (by decide)
  have hquote : quoted? '\'' (Scalar.intText i).toList = none := by
    cases hcs : (Scalar.intText i).toList with
    | nil => rfl
    | cons c rest =>
      refine if_neg ?_
      rintro rfl
      exact absurd (hchars '\'' (hcs ▸ List.mem_cons_self)) (by decide)
  rw [literalValue?, if_neg hnull]
  split
  · rename_i hcs
    exact absurd (hchars 'X' (hcs ▸ List.mem_cons_self)) (by decide)
  · rw [hquote, integer?_intText]
    rfl

theorem literalValue?_text (s : String) : literalValue? (literal (.text s)) = some (.text s) := by
  have hread : quoted? '\'' (literal (.text s)).toList = some (s, []) := by
    simpa using quoted?_literal (k := []) (fun h => nomatch h) s
  have hcs : (literal (.text s)).toList = '\'' :: ((doubled '\'' s).toList ++ ['\'']) := by
    rw [literal, String.toList_append, String.toList_append]
    rfl
  have hnull : literal (.text s) ≠ "NULL" := by
    intro h
    have := hcs.symm.trans (congrArg String.toList h)
    exact absurd (List.cons.inj this).1 (by decide)
  rw [literalValue?, if_neg hnull]
  split
  · rename_i h
    exact absurd (List.cons.inj (hcs.symm.trans h)).1 (by decide)
  · rw [hread]

/-- Bytes are written as a text of digits. -/
theorem literal_blob (bytes : List UInt8) :
    literal (.blob bytes) = "X" ++ literal (.text (String.join (bytes.map hexByte))) := by
  have hnone : '\'' ∉ (String.join (bytes.map hexByte)).toList := fun h => by
    obtain ⟨n, hn, hc⟩ := mem_hexBytes h
    revert n
    decide
  rw [literal, literal, doubled_of_not_mem hnone, ← String.append_assoc, ← String.append_assoc]
  rfl

theorem literalValue?_blob (bytes : List UInt8) :
    literalValue? (literal (.blob bytes)) = some (.blob bytes) := by
  have hcs : (literal (.blob bytes)).toList =
      'X' :: (literal (.text (String.join (bytes.map hexByte)))).toList := by
    rw [literal_blob, String.toList_append]
    rfl
  have hread : quoted? '\'' (literal (.text (String.join (bytes.map hexByte)))).toList =
      some (String.join (bytes.map hexByte), []) := by
    simpa using quoted?_literal (k := []) (fun h => nomatch h) (String.join (bytes.map hexByte))
  have hnull : literal (.blob bytes) ≠ "NULL" := by
    intro h
    exact absurd (List.cons.inj (hcs.symm.trans (congrArg String.toList h))).1 (by decide)
  rw [literalValue?, if_neg hnull, hcs]
  simp only [hread, hexBytes?_hexBytes, Option.map_some]

theorem literal_undefined {x : Double} (h : x.isNaN = true) : literal (.float x) = "NULL" := if_pos h

theorem ofScalar_undefined {x : Double} (h : x.isNaN = true) : Datum.ofScalar (.float x) = .null :=
  if_pos h

/-- **The literal of a value denotes what is stored of it**, in itself and in every expression. -/
theorem literalValue?_literal {v : Scalar} (h : v.IsDiscrete) :
    literalValue? (literal v) = some (Datum.ofScalar v) := by
  cases v with
  | null => rfl
  | bool b =>
    have hbit : literal (.bool b) = Scalar.intText (Scalar.bit b) := by cases b <;> rfl
    rw [hbit, literalValue?_intText]
    rfl
  | int i => exact literalValue?_intText i
  | float x =>
    rw [literal_undefined (h x rfl), ofScalar_undefined (h x rfl)]
    rfl
  | text s => exact literalValue?_text s
  | blob bytes => exact literalValue?_blob bytes

theorem ofLiteral_discrete {v : Scalar} (h : v.IsDiscrete) : Datum.ofLiteral v = Datum.ofScalar v := by
  cases v with
  | float x =>
    rw [Datum.ofLiteral, literal_undefined (h x rfl), ofScalar_undefined (h x rfl)]
    rfl
  | _ => rfl

/-- A literal holds a zero character where its text does. -/
theorem contains_literal {v : Scalar} (h : v.IsDiscrete) :
    (literal v).toList.contains '\x00' = v.holdsZero := by
  have hint (i : Int64) : (Scalar.intText i).toList.contains '\x00' = false := by
    rw [Bool.eq_false_iff, Ne, List.contains_iff_mem]
    intro hc
    rcases mem_intText hc with hc | hc <;> exact absurd hc (by decide)
  have htext (s : String) :
      (literal (.text s)).toList.contains '\x00' = s.toList.contains '\x00' := by
    rw [Bool.eq_iff_iff, List.contains_iff_mem, List.contains_iff_mem, literal, String.toList_append,
      String.toList_append, List.mem_append, List.mem_append, mem_doubled]
    simp
  cases v with
  | null => rfl
  | bool b => cases b <;> rfl
  | int i => exact hint i
  | float x =>
    rw [literal_undefined (h x rfl)]
    rfl
  | text s => exact htext s
  | blob bytes =>
    have hnone : '\x00' ∉ (String.join (bytes.map hexByte)).toList := fun hc => by
      obtain ⟨n, hn, hc⟩ := mem_hexBytes hc
      revert n
      decide
    have hzero : (Scalar.blob bytes).holdsZero = false := rfl
    rw [literal_blob, String.toList_append, List.contains_append, htext, hzero]
    simpa using hnone

end Sql
end LazyQuery
