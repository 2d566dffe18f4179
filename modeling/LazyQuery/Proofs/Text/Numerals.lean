import LazyQuery.Decimal.Read
import LazyQuery.Proofs.Scalar.Word

/-!
# Numerals

How integers and floats are written: with a sign, digits, a point and an exponent, or as a word. Each part is a
relation between what it says and its characters. The readers take just the texts that are so written, for what
they say (`integer?_eq_some`, `float?_eq_some`).
-/

set_option autoImplicit false

namespace LazyQuery.Decimal

/-! ## How numbers are written -/

/-- A sign that can stand in front; `true` is minus. -/
inductive Sign : Bool → List Char → Prop
  | absent : Sign false []
  | plus : Sign false ['+']
  | minus : Sign true ['-']

/-- Characters all of which are digits. -/
def AreDigits (cs : List Char) : Prop := ∀ c ∈ cs, c.isDigit = true

/-- What digits behind a sign stand for. -/
def signed (negative : Bool) (ds : List Char) : Int :=
  if negative then -(Nat.ofDigitChars 10 ds 0 : Int) else Nat.ofDigitChars 10 ds 0

/-- An integer: digits, perhaps with a sign. -/
inductive WritesInteger : Int → List Char → Prop
  | mk {negative : Bool} {sign ds : List Char} (hs : Sign negative sign) (hne : ds ≠ []) (hds : AreDigits ds) :
    WritesInteger (signed negative ds) (sign ++ ds)

/-- The digits of a fraction, behind a point, if it is there. -/
inductive Fraction : List Char → List Char → Prop
  | absent : Fraction [] []
  | point {ds : List Char} (hds : AreDigits ds) : Fraction ds ('.' :: ds)

/-- A power of ten by which a numeral is scaled, if it is written. -/
inductive Exponent : Int → List Char → Prop
  | absent : Exponent 0 []
  | power {e : Char} {negative : Bool} {sign ds : List Char} (he : e = 'e' ∨ e = 'E') (hs : Sign negative sign)
      (hne : ds ≠ []) (hds : AreDigits ds) : Exponent (signed negative ds) (e :: (sign ++ ds))

/-- An unsigned decimal, with its significand and its exponent: at least one digit before the exponent. -/
inductive Unsigned : Nat → Int → List Char → Prop
  | mk {whole ds fraction exponent : List Char} {e : Int} (hwhole : AreDigits whole) (hf : Fraction ds fraction)
      (hne : whole ++ ds ≠ []) (he : Exponent e exponent) :
    Unsigned (Nat.ofDigitChars 10 (whole ++ ds) 0) (e - ds.length) (whole ++ (fraction ++ exponent))

/-- A word for a float that is not finite, in letters of any case. -/
inductive Special : Double → List Char → Prop
  | infinity {cs : List Char}
      (h : cs.map Char.toLower = "inf".toList ∨ cs.map Char.toLower = "infinity".toList) :
    Special (.ofFloat Binary.infinity) cs
  | nan {cs : List Char} (h : cs.map Char.toLower = "nan".toList) : Special .nan cs

/-- A float: a decimal or a word, perhaps with a sign. -/
inductive WritesFloat : Double → List Char → Prop
  | decimal {negative : Bool} {sign cs : List Char} {significand : Nat} {exponent : Int}
      (hs : Sign negative sign) (h : Unsigned significand exponent cs) :
    WritesFloat (.ofFloat (toFloat negative significand exponent)) (sign ++ cs)
  | special {negative : Bool} {sign cs : List Char} {x : Double} (hs : Sign negative sign) (h : Special x cs) :
    WritesFloat (if negative then -x else x) (sign ++ cs)

/-! ## How they are read -/

variable {negative : Bool} {cs ds rest : List Char}

/-- There is no sign in front. -/
def Begins (cs : List Char) : Prop := ∀ c, cs.head? = some c → c ≠ '-' ∧ c ≠ '+'

theorem sign_append {s : List Char} (hs : Sign negative s) (h : Begins cs) :
    sign (s ++ cs) = (negative, cs) := by
  cases hs with
  | plus | minus => rfl
  | absent =>
    rw [List.nil_append]
    unfold sign
    split
    · exact absurd rfl (h '-' rfl).1
    · exact absurd rfl (h '+' rfl).2
    · rfl

theorem exists_sign (cs : List Char) : ∃ s, Sign (sign cs).1 s ∧ s ++ (sign cs).2 = cs := by
  unfold sign
  split
  · exact ⟨_, .minus, rfl⟩
  · exact ⟨_, .plus, rfl⟩
  · exact ⟨_, .absent, rfl⟩

theorem AreDigits.begins (h : AreDigits cs) : Begins cs := by
  cases cs with
  | nil => nofun
  | cons c cs =>
    have hc := h c List.mem_cons_self
    rintro _ ⟨⟩
    constructor <;> (rintro rfl; revert hc; decide)

/-- AreDigits are taken off the front as far as they go. -/
theorem span_digits (hds : AreDigits ds) (h : ∀ c, rest.head? = some c → c.isDigit = false) :
    (ds ++ rest).takeWhile Char.isDigit = ds ∧ (ds ++ rest).dropWhile Char.isDigit = rest := by
  rw [List.takeWhile_append_of_pos hds, List.dropWhile_append_of_pos hds]
  cases rest with
  | nil => simp
  | cons c rest => simp [h c rfl]

theorem digits_takeWhile (cs : List Char) : AreDigits (cs.takeWhile Char.isDigit) :=
  List.all_eq_true.1 List.all_takeWhile

/-- **A text is read as an integer just if it is written so.** -/
theorem integer?_eq_some {s : String} {i : Int64} :
    integer? s = some i ↔ WritesInteger i.toInt s.toList := by
  constructor
  · obtain ⟨front, hs, hfront⟩ := exists_sign s.toList
    intro h
    rw [integer?] at h
    dsimp only at h
    split at h
    · cases h
    · rename_i hds
      rw [Bool.or_eq_true, not_or, List.isEmpty_iff, Bool.not_eq_true', Bool.not_eq_false,
        List.all_eq_true] at hds
      rw [← hfront, ← Word.fit?_eq_some.1 h]
      exact .mk hs hds.1 hds.2
  · intro h
    generalize hcs : s.toList = cs at h
    generalize hi : i.toInt = value at h
    obtain @⟨negative, front, ds, hs, hne, hds⟩ := h
    have hdigits : (ds.isEmpty || !ds.all Char.isDigit) = false := by
      rw [Bool.or_eq_false_iff, List.isEmpty_eq_false_iff, Bool.not_eq_false', List.all_eq_true]
      exact ⟨hne, hds⟩
    rw [integer?, hcs, sign_append hs hds.begins]
    dsimp only
    rw [hdigits, if_neg Bool.false_ne_true]
    exact Word.fit?_eq_some.2 hi.symm

/-! ## Floats -/

theorem Exponent.head {e : Int} (h : Exponent e cs) {c : Char} (hc : cs.head? = some c) :
    c = 'e' ∨ c = 'E' := by
  cases h with
  | absent => cases hc
  | power he => exact Option.some.inj hc ▸ he

theorem scanFraction_append (hf : Fraction ds cs) {e : Int} {exponent : List Char}
    (he : Exponent e exponent) :
    ∃ pointed, scanFraction (cs ++ exponent) = (ds, pointed, exponent) := by
  have hstop : ∀ c, exponent.head? = some c → c.isDigit = false := fun c hc => by
    obtain rfl | rfl := he.head hc <;> decide
  cases hf with
  | absent =>
    refine ⟨false, ?_⟩
    rw [List.nil_append]
    unfold scanFraction
    split
    · obtain hc | hc := he.head rfl <;> exact absurd hc (by decide)
    · rfl
  | point hds =>
    obtain ⟨htake, hdrop⟩ := span_digits hds hstop
    rw [List.cons_append, scanFraction, htake, hdrop]
    exact ⟨true, rfl⟩

theorem exists_fraction (cs : List Char) :
    ∃ text, Fraction (scanFraction cs).1 text ∧ text ++ (scanFraction cs).2.2 = cs := by
  unfold scanFraction
  split
  · exact ⟨_, .point (digits_takeWhile _), by simp⟩
  · exact ⟨_, .absent, rfl⟩

theorem scanExponent_eq {e : Int} (h : Exponent e cs) :
    ∃ exponential, scanExponent cs = (e, exponential, []) := by
  cases h with
  | absent => exact ⟨_, rfl⟩
  | power he hs hne hds =>
    refine ⟨true, ?_⟩
    obtain ⟨htake, hdrop⟩ := span_digits hds (nofun : ∀ c : Char, [].head? = some c → _)
    rw [List.append_nil] at htake hdrop
    rw [scanExponent, if_pos he, sign_append hs hds.begins]
    dsimp only
    rw [htake, hdrop]
    obtain ⟨d, ds, rfl⟩ := List.exists_cons_of_ne_nil hne
    rfl

theorem exponent_of_scan {e : Int} {exponential : Bool} (h : scanExponent cs = (e, exponential, [])) :
    Exponent e cs := by
  cases cs with
  | nil =>
    obtain ⟨rfl, -⟩ := Prod.mk.inj h
    exact .absent
  | cons c rest =>
    rw [scanExponent] at h
    split at h
    · rename_i he
      obtain ⟨front, hs, hfront⟩ := exists_sign rest
      dsimp only at h
      split at h
      · cases h
      · rename_i hne
        obtain ⟨rfl, htail⟩ := Prod.mk.inj h
        obtain ⟨-, hdrop⟩ := Prod.mk.inj htail
        have hall := List.takeWhile_append_dropWhile (p := Char.isDigit) (l := (sign rest).2)
        rw [hdrop, List.append_nil] at hall
        have hpower := Exponent.power he hs hne (digits_takeWhile _)
        have hrest : front ++ (sign rest).2.takeWhile Char.isDigit = rest := by rw [hall, hfront]
        rwa [hrest] at hpower
    · cases h

theorem exists_numeral {significand : Nat} {e : Int} (h : Unsigned significand e cs) :
    ∃ n, scan? cs = some n ∧ n.significand = significand ∧ n.exponent = e ∧ n.rest = [] := by
  obtain @⟨whole, ds, fraction, exponent, e, hwhole, hf, hne, he⟩ := h
  have hstop : ∀ c, (fraction ++ exponent).head? = some c → c.isDigit = false := fun c hc => by
    cases hf with
    | absent => obtain rfl | rfl := he.head hc <;> decide
    | point => exact Option.some.inj hc ▸ by decide
  obtain ⟨htake, hdrop⟩ := span_digits hwhole hstop
  obtain ⟨pointed, hfraction⟩ := scanFraction_append hf he
  obtain ⟨exponential, hexponent⟩ := scanExponent_eq he
  have hsome : (whole.isEmpty && ds.isEmpty) = false := by
    cases whole <;> cases ds <;> first | rfl | exact absurd rfl hne
  rw [scan?, htake, hdrop, hfraction]
  dsimp only
  rw [hsome, if_neg Bool.false_ne_true, hexponent]
  exact ⟨_, rfl, rfl, rfl, rfl⟩

theorem unsigned_of_scan {n : Numeral} (h : scan? cs = some n) (hrest : n.rest = []) :
    Unsigned n.significand n.exponent cs := by
  obtain ⟨fraction, hf, hfraction⟩ := exists_fraction (cs.dropWhile Char.isDigit)
  rw [scan?] at h
  dsimp only at h
  split at h
  · cases h
  · rename_i hne
    obtain rfl := Option.some.inj h
    have he := exponent_of_scan (Prod.ext rfl (Prod.ext rfl hrest))
    have hu := Unsigned.mk (digits_takeWhile cs) hf (by simpa using hne) he
    rwa [hfraction, List.takeWhile_append_dropWhile] at hu

theorem Unsigned.begins {significand : Nat} {e : Int} (h : Unsigned significand e cs) : Begins cs := by
  obtain ⟨hwhole, hf, hne, he⟩ := h
  rename_i whole ds fraction exponent e
  cases whole with
  | cons c whole => exact fun d hd => hwhole.begins d hd
  | nil =>
    cases hf with
    | absent => exact absurd rfl hne
    | point => rintro _ ⟨⟩; decide

theorem toLower_of_isDigit {c : Char} (h : c.isDigit = true) : c.toLower = c := by
  have hc : decide (c.val ≥ 48) && decide (c.val ≤ 57) := h
  rw [Bool.and_eq_true, decide_eq_true_iff, decide_eq_true_iff] at hc
  delta Char.toLower
  rw [dif_neg]
  exact fun hu => absurd (UInt32.le_trans hu.1 hc.2) (by decide)

/-- A word does not begin as a numeral does. -/
theorem Special.head {x : Double} (h : Special x cs) {c : Char} (hc : cs.head? = some c) :
    c.isDigit = false ∧ c ≠ '.' ∧ c ≠ '-' ∧ c ≠ '+' := by
  obtain ⟨rest, rfl⟩ := List.head?_eq_some_iff.1 hc
  have hletter : c.toLower = 'i' ∨ c.toLower = 'n' := by
    rcases h with ⟨h | h⟩ | ⟨h⟩
    · exact .inl (List.cons.inj h).1
    · exact .inl (List.cons.inj h).1
    · exact .inr (List.cons.inj h).1
  refine ⟨Bool.eq_false_iff.2 fun hd => ?_, ?_⟩
  · rw [toLower_of_isDigit hd] at hletter
    rcases hletter with rfl | rfl <;> exact absurd hd (by decide)
  · refine ⟨?_, ?_, ?_⟩ <;> (rintro rfl; revert hletter; decide)

theorem ofList_eq_iff {word : String} : String.ofList cs = word ↔ cs = word.toList := by
  constructor <;> rintro rfl
  · exact String.toList_ofList.symm
  · exact String.ofList_toList

theorem special?_eq_some {x : Double} : special? cs = some x ↔ Special x cs := by
  rw [special?]
  simp only [ofList_eq_iff]
  constructor
  · intro h
    split at h
    · rename_i hword
      obtain rfl := Option.some.inj h
      exact .infinity hword
    · obtain ⟨hword, h⟩ := Option.ite_none_right_eq_some.1 h
      obtain rfl := Option.some.inj h
      exact .nan hword
  · intro h
    cases h with
    | infinity hword => exact if_pos hword
    | nan hword => rw [hword, if_neg (by decide), if_pos rfl]

/-- What does not begin with a digit or a point is no numeral. -/
theorem scan?_eq_none (h : ∀ c, cs.head? = some c → c.isDigit = false ∧ c ≠ '.') : scan? cs = none := by
  cases cs with
  | nil => rfl
  | cons c rest =>
    obtain ⟨hdigit, hpoint⟩ := h c rfl
    have hfraction : scanFraction (c :: rest) = ([], false, c :: rest) := by
      unfold scanFraction
      split
      · rename_i he
        exact absurd (List.cons.inj he).1 hpoint
      · rfl
    rw [scan?, List.takeWhile_cons_of_neg (by rw [hdigit]; exact Bool.false_ne_true),
      List.dropWhile_cons_of_neg (by rw [hdigit]; exact Bool.false_ne_true), hfraction]
    rfl

/-- **A text is read as a float just if it is written so.** -/
theorem float?_eq_some {s : String} {x : Double} : float? s = some x ↔ WritesFloat x s.toList := by
  constructor
  · obtain ⟨front, hs, hfront⟩ := exists_sign s.toList
    intro h
    rw [float?] at h
    dsimp only at h
    rw [← hfront]
    split at h
    · rename_i n hn
      obtain ⟨hrest, h⟩ := Option.ite_none_right_eq_some.1 h
      obtain rfl := Option.some.inj h
      exact .decimal hs (unsigned_of_scan hn (List.isEmpty_iff.1 hrest))
    · obtain ⟨y, hy, rfl⟩ := Option.map_eq_some_iff.1 h
      exact .special hs (special?_eq_some.1 hy)
  · intro h
    generalize hcs : s.toList = cs at h
    rw [float?, hcs]
    cases h with
    | decimal hs h =>
      obtain ⟨n, hn, rfl, rfl, hrest⟩ := exists_numeral h
      rw [sign_append hs h.begins]
      dsimp only
      rw [hn]
      dsimp only
      rw [hrest]
      rfl
    | special hs h =>
      rw [sign_append hs fun c hc => (h.head hc).2.2]
      dsimp only
      rw [scan?_eq_none fun c hc => ⟨(h.head hc).1, (h.head hc).2.1⟩, special?_eq_some.2 h]
      rfl

end LazyQuery.Decimal
