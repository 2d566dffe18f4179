import LazyQuery.Text.Like
import Mathlib.Data.List.Infix

/-!
# What the search for wildcard patterns finds

The search compares pattern and text greedily and reconsiders only the latest `%`. A `%` of the pattern
that faces a `%` of the text is compared as an ordinary character, and never reconsidered.

* `Takes` is the relation between patterns and texts that comes of this, by rules that do not mention a
  search: a `%` takes any stretch, but from a `%` of the text it takes that character alone. One `%` is
  as good as all of them because what it leaves for the rest of the pattern can be left again later
  (`Takes.drop`, `attempt_greedy`); hence `matchesExactly_iff`.
* `Takes` is narrower than `Covers`, and the same for texts without a `%` (`takes_iff_covers`).
* `covers_iff`: the set of rests that `covers` follows decides `Covers`, whatever the text.
* `Cursor` is the loop over positions that does the search with one mark for the latest `%`. Every turn
  keeps its answer (`Cursor.answer_step`) and lowers its measure (`Cursor.measure_step`), so it ends, with
  the answer of the search (`Cursor.run_start`).
-/

set_option autoImplicit false

namespace LazyQuery.Like

variable {p t u rest : List Char} {x c : Char}

/-! ## The texts that a pattern takes -/

/-- The texts that a pattern takes if a `%` that faces a `%` is an ordinary character. -/
inductive Takes : List Char → List Char → Prop
  | nil : Takes [] []
  | stretch {p t rest : List Char} (ht : t.head? ≠ some '%') (hs : rest <:+ t) (h : Takes p rest) :
      Takes ('%' :: p) t
  | literal {p t : List Char} (h : Takes p t) : Takes ('%' :: p) ('%' :: t)
  | any {p t : List Char} (c : Char) (h : Takes p t) : Takes ('_' :: p) (c :: t)
  | char {p t : List Char} (c : Char) (hc : c ≠ '%' ∧ c ≠ '_') (h : Takes p t) : Takes (c :: p) (c :: t)

theorem takes_nil : Takes p [] ↔ p.all (· == '%') = true := by
  induction p with
  | nil => exact iff_of_true .nil rfl
  | cons x p ih =>
    rw [List.all_cons, Bool.and_eq_true, ← ih, beq_iff_eq]
    constructor
    · rintro (_ | ⟨_, hs, h⟩)
      exact ⟨rfl, List.suffix_nil.mp hs ▸ h⟩
    · rintro ⟨rfl, h⟩
      exact .stretch (by simp) List.suffix_rfl h

/-- A pattern character that fits the text's is used up together with it. -/
theorem takes_cons_of_fits (hx : x = '_' ∨ x = c) : Takes (x :: p) (c :: t) ↔ Takes p t := by
  constructor
  · rintro ⟨⟩
    case stretch _ ht _ =>
      obtain hx | rfl := hx
      · exact absurd hx (by decide)
      · exact absurd rfl ht
    all_goals assumption
  · intro h
    by_cases h_ : x = '_'
    · exact h_ ▸ .any c h
    obtain rfl : x = c := hx.resolve_left h_
    by_cases hp : x = '%'
    · exact hp ▸ .literal h
    · exact .char x ⟨hp, h_⟩ h

/-- What is taken by a pattern ends with what is taken by the rest of the pattern. -/
theorem Takes.drop (h : Takes (x :: p) t) : ∃ rest, rest <:+ t ∧ Takes p rest := by
  cases h with
  | stretch _ hs h => exact ⟨_, hs, h⟩
  | literal h | any _ h | char _ _ h => exact ⟨_, List.suffix_cons _ _, h⟩

theorem takes_percent : Takes ['%'] t ↔ t.head? ≠ some '%' ∨ t = ['%'] := by
  constructor
  · intro h
    cases h with
    | stretch ht => exact .inl ht
    | literal h => cases h; exact .inr rfl
    | char _ hc => exact absurd rfl hc.1
  · rintro (ht | rfl)
    · exact .stretch ht List.nil_suffix .nil
    · exact .literal .nil

/-! ## The search -/

/-- What is still asked for when a comparison ends. -/
def Outcome.Holds : Outcome → Prop
  | .done fits => fits = true
  | .wildcard p t => ∃ rest, rest <:+ t ∧ Takes p rest
  | .mismatch => False

theorem takes_iff_attempt (p t : List Char) : Takes p t ↔ (attempt p t).Holds := by
  fun_induction attempt p t with
  | case1 p => exact takes_nil
  | case2 => exact iff_of_false (fun h => by cases h) id
  | case3 x p c t hx ih => exact (takes_cons_of_fits hx).trans ih
  | case4 p c t hc =>
    refine ⟨Takes.drop, ?_⟩
    rintro ⟨rest, hs, h⟩
    refine .stretch ?_ hs h
    rintro ⟨⟩
    exact hc (.inr rfl)
  | case5 x p c t hx hp =>
    refine iff_of_false ?_ id
    rintro ⟨⟩ <;> simp at hx hp

/-- A comparison that comes to an end from the front of a text decides for all that is left of it: what
a later part of the text makes of the pattern, this one does. -/
theorem attempt_greedy (hm : attempt p t ≠ .mismatch) (hs : u <:+ t) (hu : Takes p u) :
    (attempt p t).Holds := by
  fun_induction attempt p t generalizing u with
  | case1 p => exact takes_nil.mp (List.suffix_nil.mp hs ▸ hu)
  | case2 => exact absurd rfl hm
  | case3 x p c t hx ih =>
    obtain rfl | hs := List.suffix_cons_iff.mp hs
    · exact ih hm List.suffix_rfl ((takes_cons_of_fits hx).mp hu)
    · obtain ⟨rest, hrest, h⟩ := hu.drop
      exact ih hm (hrest.trans hs) h
  | case4 p c t =>
    obtain ⟨rest, hrest, h⟩ := hu.drop
    exact ⟨rest, hrest.trans hs, h⟩
  | case5 => exact absurd rfl hm

theorem exists_suffix_iff_attempt (hm : attempt p t ≠ .mismatch) :
    (∃ rest, rest <:+ t ∧ Takes p rest) ↔ (attempt p t).Holds :=
  ⟨fun ⟨_, hs, h⟩ => attempt_greedy hm hs h,
    fun h => ⟨t, List.suffix_rfl, (takes_iff_attempt p t).mpr h⟩⟩

theorem search_iff (p t : List Char) :
    search p t = true ↔ ∃ rest, rest <:+ t ∧ Takes p rest := by
  fun_induction search p t with
  | case1 p t fits h =>
    rw [exists_suffix_iff_attempt (by rw [h]; nofun), h, Outcome.Holds]
  | case2 p t p' t' h ih =>
    rw [exists_suffix_iff_attempt (by rw [h]; nofun), h, Outcome.Holds, ih]
  | case3 p h => simp [attempt] at h
  | case4 p c t h ih =>
    -- The pattern does not fit here, so it fits somewhere further on or nowhere.
    have here : ¬ Takes p (c :: t) := by rw [takes_iff_attempt, h]; exact id
    rw [ih]
    refine ⟨fun ⟨rest, hs, hr⟩ => ⟨rest, hs.trans (List.suffix_cons c t), hr⟩, ?_⟩
    rintro ⟨rest, hs, hr⟩
    obtain rfl | hs := List.suffix_cons_iff.mp hs
    · exact absurd hr here
    · exact ⟨rest, hs, hr⟩

theorem matchesExactly_iff (p t : List Char) : matchesExactly p t = true ↔ Takes p t := by
  rw [takes_iff_attempt, matchesExactly]
  cases attempt p t with
  | done => rfl
  | mismatch => exact iff_of_false Bool.false_ne_true id
  | wildcard p' t' => exact search_iff p' t'

/-! ## Against the textbook relation -/

theorem Covers.stretch (hs : rest <:+ t) (h : Covers p rest) : Covers ('%' :: p) t := by
  obtain ⟨before, rfl⟩ := hs
  induction before with
  | nil => exact h.skip
  | cons c before ih => exact ih.absorb c

theorem covers_percent : Covers ('%' :: p) t ↔ ∃ rest, rest <:+ t ∧ Covers p rest := by
  refine ⟨fun h => ?_, fun ⟨_, hs, h⟩ => h.stretch hs⟩
  induction t with
  | nil =>
    cases h with
    | skip h => exact ⟨[], List.suffix_rfl, h⟩
  | cons c t ih =>
    cases h with
    | skip h => exact ⟨_, List.suffix_rfl, h⟩
    | absorb _ h =>
      obtain ⟨rest, hs, h⟩ := ih h
      exact ⟨rest, hs.trans (List.suffix_cons c t), h⟩
    | char _ hc => exact absurd rfl hc.1

theorem covers_cons (hx : x ≠ '%') :
    Covers (x :: p) t ↔ ∃ c rest, t = c :: rest ∧ (x = '_' ∨ x = c) ∧ Covers p rest := by
  constructor
  · intro h
    cases h with
    | skip | absorb => exact absurd rfl hx
    | any c h => exact ⟨c, _, rfl, .inl rfl, h⟩
    | char c _ h => exact ⟨_, _, rfl, .inr rfl, h⟩
  · rintro ⟨c, rest, rfl, hxc, h⟩
    by_cases h_ : x = '_'
    · exact h_ ▸ h.any c
    · obtain rfl : x = c := hxc.resolve_left h_
      exact h.char x ⟨hx, h_⟩

theorem Takes.covers (h : Takes p t) : Covers p t := by
  induction h with
  | nil => exact .nil
  | stretch _ hs _ ih => exact ih.stretch hs
  | literal _ ih => exact ih.skip.absorb '%'
  | any c _ ih => exact ih.any c
  | char c hc _ ih => exact ih.char c hc

/-- Where the text has no `%`, one that faces a `%` cannot occur. -/
theorem takes_iff_covers (ht : '%' ∉ t) : Takes p t ↔ Covers p t := by
  refine ⟨Takes.covers, fun h => ?_⟩
  induction p generalizing t with
  | nil =>
    cases h
    exact .nil
  | cons x p ih =>
    by_cases hx : x = '%'
    · subst hx
      obtain ⟨rest, hs, h⟩ := covers_percent.mp h
      exact .stretch (fun hh => ht (List.mem_of_mem_head? hh)) hs (ih (fun hm => ht (hs.mem hm)) h)
    · obtain ⟨c, rest, rfl, hxc, h⟩ := (covers_cons hx).mp h
      exact (takes_cons_of_fits hxc).mpr (ih (fun hm => ht (List.mem_cons_of_mem c hm)) h)

/-! ## The set of rests -/

theorem mem_suffixes : rest ∈ suffixes t ↔ rest <:+ t := by
  induction t with
  | nil => rw [suffixes, List.mem_singleton, List.suffix_nil]
  | cons c t ih => rw [suffixes, List.mem_cons, ih, List.suffix_cons_iff]

/-- Each is left of those before it. -/
def Nested (rests : List (List Char)) : Prop :=
  rests.Pairwise fun longer shorter => shorter <:+ longer

theorem nested_suffixes (t : List Char) : Nested (suffixes t) := by
  induction t with
  | nil => exact List.pairwise_singleton _ _
  | cons c t ih =>
    exact .cons (fun rest h => (mem_suffixes.mp h).trans (List.suffix_cons c t)) ih

theorem advance_percent (longest : List Char) (shorter : List (List Char)) :
    advance (longest :: shorter) '%' = suffixes longest := rfl

theorem mem_advance_of_ne {rests : List (List Char)} (hx : x ≠ '%') :
    rest ∈ advance rests x ↔ ∃ c, c :: rest ∈ rests ∧ (x = '_' ∨ x = c) := by
  simp only [advance, if_neg hx, List.mem_filterMap]
  constructor
  · rintro ⟨_ | ⟨c, t⟩, hm, h⟩
    · cases h
    · obtain ⟨hxc, rfl⟩ : (x = '_' ∨ x = c) ∧ t = rest := by simpa using h
      exact ⟨c, hm, hxc⟩
  · rintro ⟨c, hm, hxc⟩
    exact ⟨c :: rest, hm, if_pos hxc⟩

theorem Nested.advance {rests : List (List Char)} (h : Nested rests) (x : Char) :
    Nested (advance rests x) := by
  by_cases hx : x = '%'
  · subst hx
    cases rests with
    | nil => exact .nil
    | cons longest _ => exact nested_suffixes longest
  · simp only [Like.advance, if_neg hx, Nested, List.pairwise_filterMap]
    refine h.imp ?_
    rintro (_ | ⟨c, t⟩) (_ | ⟨d, u⟩) hs t' ht u' hu <;> simp at ht hu
    obtain ⟨⟨-, rfl⟩, -, rfl⟩ := ht, hu
    obtain heq | hs := List.suffix_cons_iff.mp hs
    · exact (List.cons.inj heq).2 ▸ List.suffix_rfl
    · exact (List.suffix_cons d _).trans hs

/-- Of rests each left of those before, all that a `%` can leave is left of the first. -/
theorem exists_advance_iff {rests : List (List Char)} (h : Nested rests) :
    (∃ rest ∈ advance rests x, Covers p rest) ↔ ∃ t ∈ rests, Covers (x :: p) t := by
  by_cases hx : x = '%'
  · subst hx
    simp only [covers_percent]
    cases rests with
    | nil => simp [advance]
    | cons longest shorter =>
      simp only [advance_percent, mem_suffixes]
      refine ⟨fun ⟨rest, hs, hc⟩ => ⟨longest, List.mem_cons_self, rest, hs, hc⟩, ?_⟩
      rintro ⟨t, ht, rest, hs, hc⟩
      refine ⟨rest, hs.trans ?_, hc⟩
      obtain rfl | ht := List.mem_cons.mp ht
      · exact List.suffix_rfl
      · exact List.rel_of_pairwise_cons h ht
  · simp only [mem_advance_of_ne hx, covers_cons hx]
    constructor
    · rintro ⟨rest, ⟨c, hm, hxc⟩, h⟩
      exact ⟨c :: rest, hm, c, rest, rfl, hxc, h⟩
    · rintro ⟨_, hm, c, rest, rfl, hxc, h⟩
      exact ⟨rest, ⟨c, hm, hxc⟩, h⟩

theorem foldl_advance_iff {rests : List (List Char)} (h : Nested rests) :
    (p.foldl advance rests).any List.isEmpty = true ↔ ∃ t ∈ rests, Covers p t := by
  induction p generalizing rests with
  | nil =>
    rw [List.foldl_nil, List.any_eq_true]
    refine exists_congr fun t => and_congr_right fun _ => ?_
    rw [List.isEmpty_iff]
    exact ⟨fun ht => ht ▸ .nil, fun h => by cases h; rfl⟩
  | cons x p ih => rw [List.foldl_cons, ih (h.advance x), exists_advance_iff h]

/-- **Following all rests decides the textbook relation.** -/
theorem covers_iff (pattern text : String) :
    covers pattern text = true ↔ Covers (folded pattern) (folded text) := by
  rw [covers, foldl_advance_iff (List.pairwise_singleton _ _)]
  simp

/-! ## The loop -/

/-- Where the loop stands: what is left of pattern and text, and what was left of them after the latest
`%`, if there was one. -/
structure Cursor where
  /-- What is left of the pattern. -/
  pattern : List Char
  /-- What is left of the text. -/
  text : List Char
  /-- The pattern after the latest `%`, with the text it was last compared with. -/
  mark : Option (List Char × List Char)

namespace Cursor

/-- Let the latest `%` take one character more. -/
def retry : Option (List Char × List Char) → Bool ⊕ Cursor
  | none => .inl false
  | some (p, t) => .inr ⟨p, t.tail, some (p, t.tail)⟩

/-- One turn of the loop: the answer, or where the loop goes on. -/
def step : Cursor → Bool ⊕ Cursor
  | ⟨p, [], _⟩ => .inl (p.all (· == '%'))
  | ⟨[], _ :: _, mark⟩ => retry mark
  | ⟨x :: p, c :: t, mark⟩ =>
    if x = '_' ∨ x = c then .inr ⟨p, t, mark⟩
    else if x = '%' then .inr ⟨p, c :: t, some (p, c :: t)⟩
    else retry mark

/-- The loop, for a number of turns. -/
def run : Nat → Cursor → Option Bool
  | 0, _ => none
  | n + 1, s =>
    match s.step with
    | .inl answer => some answer
    | .inr s' => run n s'

/-- What the search makes of the situation. -/
def answer (s : Cursor) : Bool :=
  match attempt s.pattern s.text with
  | .done fits => fits
  | .wildcard p t => search p t
  | .mismatch => s.mark.any fun m => search m.1 m.2.tail

theorem answer_marked (p t : List Char) : answer ⟨p, t, some (p, t)⟩ = search p t := by
  fun_cases search p t with
  | case1 _ _ h => simp only [answer, h]
  | case2 _ _ _ h => simp only [answer, h]
  | case3 h => simp [attempt] at h
  | case4 _ _ h => simp only [answer, h, Option.any_some, List.tail_cons]

theorem answer_of_retry {s : Cursor} (h : attempt s.pattern s.text = .mismatch) :
    (retry s.mark).elim id answer = s.answer := by
  rw [answer, h]
  cases s.mark with
  | none => rfl
  | some m => exact answer_marked m.1 m.2.tail

/-- A turn does not change what the search makes of the situation. -/
theorem answer_step (s : Cursor) : s.step.elim id answer = s.answer := by
  obtain ⟨_ | ⟨x, p⟩, _ | ⟨c, t⟩, mark⟩ := s
  · rfl
  · exact answer_of_retry (s := ⟨[], c :: t, mark⟩) rfl
  · rfl
  · by_cases hx : x = '_' ∨ x = c
    · simp only [step, if_pos hx, Sum.elim_inr, answer, attempt]
    by_cases hp : x = '%'
    · simp only [step, if_neg hx, if_pos hp, Sum.elim_inr, answer_marked]
      simp only [answer, attempt, if_neg hx, if_pos hp]
    · rw [step, if_neg hx, if_neg hp]
      exact answer_of_retry (s := ⟨x :: p, c :: t, mark⟩) (by rw [attempt, if_neg hx, if_neg hp])

/-- Nothing is longer than pattern and text were, and the text at the latest `%` is the longest that is
left of the text. -/
structure Within (s : Cursor) (patternLength textLength : Nat) : Prop where
  pattern_le : s.pattern.length ≤ patternLength
  text_le : s.text.length ≤ textLength
  mark_le : ∀ m ∈ s.mark, m.1.length ≤ patternLength ∧ s.text.length ≤ m.2.length ∧
    m.2.length ≤ textLength

/-- A bound for the turns to come: the latest `%` never moves back in the text, and the pattern gets
shorter as long as it stays. -/
def measure (s : Cursor) (patternLength textLength : Nat) : Nat :=
  (s.mark.elim textLength (·.2.length)) * (patternLength + 1) + s.pattern.length

variable {s s' : Cursor} {m n : Nat}

theorem retry_spec (hw : s.Within m n) (ht : s.text ≠ []) (h : retry s.mark = .inr s') :
    s'.Within m n ∧ s'.measure m n < s.measure m n := by
  obtain ⟨p, t, mark⟩ := s
  cases mark with
  | none => cases h
  | some mark =>
    obtain ⟨hq, hle, hn⟩ := hw.mark_le mark rfl
    have hpos : 0 < t.length := List.length_pos_iff.mpr ht
    obtain ⟨q, u⟩ := mark
    obtain rfl := Sum.inr.inj h
    simp only at hq hle hn
    refine ⟨⟨hq, by simp; omega, ?_⟩, ?_⟩
    · rintro _ ⟨⟩
      exact ⟨hq, le_rfl, by simp; omega⟩
    · obtain ⟨k, hk⟩ : ∃ k, u.length = k + 1 := ⟨u.length - 1, by omega⟩
      simp only [measure, Option.elim_some, List.length_tail, hk, Nat.add_sub_cancel]
      rw [Nat.succ_mul]
      omega

/-- Every turn but the last comes nearer to the end. -/
theorem measure_step (hw : s.Within m n) (h : s.step = .inr s') :
    s'.Within m n ∧ s'.measure m n < s.measure m n := by
  obtain ⟨_ | ⟨x, p⟩, _ | ⟨c, t⟩, mark⟩ := s
  · cases h
  · exact retry_spec hw nofun h
  · cases h
  · obtain ⟨hp, ht, hm⟩ := hw
    simp only [List.length_cons] at hp ht hm
    rw [step] at h
    split at h
    · obtain rfl := Sum.inr.inj h
      refine ⟨⟨by simp only; omega, by simp only; omega, fun mk hmk => ?_⟩, ?_⟩
      · obtain ⟨h₁, h₂, h₃⟩ := hm mk hmk
        exact ⟨h₁, by simp only; omega, h₃⟩
      · simp [measure]
    split at h
    · obtain rfl := Sum.inr.inj h
      refine ⟨⟨by simp only; omega, ht, ?_⟩, ?_⟩
      · rintro _ ⟨⟩
        exact ⟨by simp only; omega, le_rfl, ht⟩
      · -- The new mark stands no earlier in the text than the one before.
        have hle : t.length + 1 ≤ mark.elim n (·.2.length) := by
          cases mark with
          | none => exact ht
          | some mk => exact (hm mk rfl).2.1
        have := Nat.mul_le_mul_right (m + 1) hle
        simp only [measure, Option.elim_some, List.length_cons]
        omega
    · exact retry_spec ⟨hp, ht, hm⟩ nofun h

/-- The loop ends within the measure, with the answer that no turn changes. -/
theorem run_eq_answer (hw : s.Within m n) {turns : Nat} (ht : s.measure m n < turns) :
    run turns s = some s.answer := by
  induction turns generalizing s with
  | zero => omega
  | succ turns ih =>
    have hstep := answer_step s
    rw [run]
    cases h : s.step with
    | inl b => rw [h] at hstep; exact congrArg some hstep
    | inr s' =>
      obtain ⟨hw', hlt⟩ := measure_step hw h
      rw [h] at hstep
      exact (ih hw' (by omega)).trans (congrArg some hstep)

/-- From the front of pattern and text, at most one turn is needed for each pair of a place in the
pattern and a place in the text, their ends included. -/
theorem run_start (p t : List Char) :
    run ((t.length + 1) * (p.length + 1)) ⟨p, t, none⟩ = some (matchesExactly p t) := by
  have hw : Within ⟨p, t, none⟩ p.length t.length := ⟨le_rfl, le_rfl, by simp⟩
  refine (run_eq_answer hw ?_).trans ?_
  · simp only [measure, Option.elim_none, Nat.succ_mul]
    omega
  · rw [answer, matchesExactly]
    rfl

end Cursor

/-! ## Texts as they are given -/

theorem toLower_eq_percent : c.toLower = '%' ↔ c = '%' := by
  unfold Char.toLower
  simp only [Char.ext_iff, ← UInt32.toNat_inj]
  split
  · -- Neither a capital letter nor what it is folded to is a `%`.
    next h =>
    simp only [UInt32.le_iff_toNat_le] at h
    have hA : 'A'.val.toNat = 65 := rfl
    have hZ : 'Z'.val.toNat = 90 := rfl
    have hd : ('a'.val - 'A'.val).toNat = 32 := rfl
    have hp : '%'.val.toNat = 37 := rfl
    rw [UInt32.toNat_add]
    omega
  · rfl

theorem percent_mem_folded {s : String} : '%' ∈ folded s ↔ '%' ∈ s.toList := by
  simp [folded, toLower_eq_percent]

/-- **What matches.** A text matches if and only if the pattern takes it, with every `%` that the search
meets facing a `%` taken for that character alone. So the texts that match are among those that the
pattern covers, and are just those if the text has no `%` in it. The loop ends, with this answer, after
at most as many turns as there are pairs of a place in the pattern and a place in the text. -/
theorem isMatch_iff (pattern text : String) :
    (isMatch pattern text = true ↔ Takes (folded pattern) (folded text)) ∧
      (isMatch pattern text = true → Covers (folded pattern) (folded text)) ∧
      ('%' ∉ text.toList → (isMatch pattern text = true ↔ Covers (folded pattern) (folded text))) ∧
      Cursor.run (((folded text).length + 1) * ((folded pattern).length + 1))
        ⟨folded pattern, folded text, none⟩ = some (isMatch pattern text) := by
  have key : isMatch pattern text = true ↔ Takes (folded pattern) (folded text) :=
    matchesExactly_iff _ _
  refine ⟨key, fun h => (key.mp h).covers, fun ht => ?_, Cursor.run_start _ _⟩
  exact key.trans (takes_iff_covers (mt percent_mem_folded.mp ht))

/-- `T%m` matches `tandem`, and no text without a `%` that it does not cover. -/
theorem isMatch_iff_tandem : '%' ∉ "tandem".toList ∧ isMatch "T%m" "tandem" = true := by
  refine ⟨by decide, ((isMatch_iff "T%m" "tandem").2.2.1 (by decide)).mpr ?_⟩
  rw [← covers_iff]
  decide

/-- The pattern that covers every text leaves out those of two characters or more that begin with `%`. -/
theorem isMatch_percent_iff (text : String) :
    covers "%" text = true ∧
      (isMatch "%" text = true ↔ (folded text).head? ≠ some '%' ∨ folded text = ['%']) := by
  have folded_percent : folded "%" = ['%'] := rfl
  refine ⟨?_, (isMatch_iff "%" text).1.trans ?_⟩
  · rw [covers_iff, folded_percent, covers_percent]
    exact ⟨[], List.nil_suffix, .nil⟩
  · rw [folded_percent, takes_percent]

example : isMatch "%" "%a" = false ∧ covers "%" "%a" = true := by decide

end LazyQuery.Like
