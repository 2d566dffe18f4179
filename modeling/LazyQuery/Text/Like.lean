/-!
# Wildcard patterns

Matching of a text against a pattern in which `%` stands for any stretch of characters and `_` for
one character, without regard to the case of ASCII letters.

* `attempt` compares pattern and text character by character up to the next `%`. A pattern character
  that equals the text character is taken literally, so a `%` facing a `%` is an ordinary character.
* `search` looks for a place after a `%` from which the rest of the pattern fits, moving one
  character further after each mismatch; only the latest `%` is reconsidered.
* `Covers` is the textbook relation between patterns and texts, and `covers` decides it by following
  all that can be left of the text after each pattern character.
-/

set_option autoImplicit false

namespace LazyQuery.Like

/-- How a comparison without reconsidering ends. -/
inductive Outcome
  /-- The text is used up; the flag says whether the rest of the pattern allows that. -/
  | done (fits : Bool)
  /-- Some character differs, or text remains after the pattern. -/
  | mismatch
  /-- A `%` is reached, with this pattern and this text after it. -/
  | wildcard (pattern text : List Char)
  deriving DecidableEq

/-- Compare up to the next `%`. -/
def attempt : List Char → List Char → Outcome
  | p, [] => .done (p.all (· == '%'))
  | [], _ :: _ => .mismatch
  | x :: p, c :: t =>
    if x = '_' ∨ x = c then attempt p t
    else if x = '%' then .wildcard p (c :: t)
    else .mismatch

theorem attempt_wildcard {p t p' t' : List Char} (h : attempt p t = .wildcard p' t') :
    p'.length < p.length ∧ t'.length ≤ t.length := by
  fun_induction attempt p t with
  | case1 => simp at h
  | case2 => simp at h
  | case3 x p c t hx ih => have := ih h; simp only [List.length_cons]; omega
  | case4 => cases h; simp
  | case5 => simp at h

/-- Find a place in the text from which the pattern after a `%` fits. -/
def search (p t : List Char) : Bool :=
  match _h : attempt p t with
  | .done fits => fits
  | .wildcard p' t' => search p' t'
  | .mismatch =>
    match t with
    | [] => false
    | _ :: t' => search p t'
termination_by (t.length, p.length)
decreasing_by
  · have := attempt_wildcard _h
    simp only [Prod.lex_def]; omega
  · simp only [Prod.lex_def, List.length_cons]; omega

/-- Does the pattern match the text, as written? -/
def matchesExactly (p t : List Char) : Bool :=
  match attempt p t with
  | .done fits => fits
  | .wildcard p' t' => search p' t'
  | .mismatch => false

/-- Characters with ASCII letters in lower case. -/
def folded (s : String) : List Char :=
  s.toList.map Char.toLower

/-- Does the pattern match the text, ASCII letters being equal in either case? -/
def isMatch (pattern text : String) : Bool :=
  matchesExactly (folded pattern) (folded text)

/-- The texts a pattern stands for: `%` covers any stretch, `_` one character, any other character
itself. -/
inductive Covers : List Char → List Char → Prop
  | nil : Covers [] []
  | skip {p t : List Char} (h : Covers p t) : Covers ('%' :: p) t
  | absorb {p t : List Char} (c : Char) (h : Covers ('%' :: p) t) : Covers ('%' :: p) (c :: t)
  | any {p t : List Char} (c : Char) (h : Covers p t) : Covers ('_' :: p) (c :: t)
  | char {p t : List Char} (c : Char) (hc : c ≠ '%' ∧ c ≠ '_') (h : Covers p t) :
      Covers (c :: p) (c :: t)

/-- A text and all that is left of it after some of its characters. -/
def suffixes : List Char → List (List Char)
  | [] => [[]]
  | c :: t => (c :: t) :: suffixes t

/-- What can be left of a text after one more pattern character, the longest first. -/
def advance (rests : List (List Char)) (x : Char) : List (List Char) :=
  if x = '%' then
    match rests with
    | [] => []
    | longest :: _ => suffixes longest
  else
    rests.filterMap fun
      | [] => none
      | c :: t => if x = '_' ∨ x = c then some t else none

/-- Does the pattern cover the text, ASCII letters being equal in either case? -/
def covers (pattern text : String) : Bool :=
  ((folded pattern).foldl advance [folded text]).any List.isEmpty

end LazyQuery.Like
