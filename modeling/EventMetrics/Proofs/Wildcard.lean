import EventMetrics.Wildcard

namespace EventMetrics.Wildcard

/-- A star stands for any characters, a question mark for one, and any other character for itself. -/
inductive Matches : List Char → List Char → Prop
  | nil : Matches [] []
  | star {pattern text : List Char} (skipped : List Char) : Matches pattern text →
      Matches ('*' :: pattern) (skipped ++ text)
  | any {pattern text : List Char} (c : Char) : Matches pattern text → Matches ('?' :: pattern) (c :: text)
  | char {pattern text : List Char} (c : Char) : c ≠ '*' → Matches pattern text → Matches (c :: pattern) (c :: text)

variable {p c : Char} {pattern text : List Char}

theorem anyFrom_tail (bs : List Bool) : (anyFrom bs).tail = anyFrom bs.tail := by cases bs <;> rfl

theorem anyFrom_headD (bs : List Bool) :
    (anyFrom bs).headD false = (bs.headD false || (anyFrom bs.tail).headD false) := by cases bs <;> rfl

theorem endsMatched_ne_nil (text pattern : List Char) : endsMatched text pattern ≠ [] := by
  induction pattern with
  | nil => simp [endsMatched]
  | cons p pattern ih =>
      by_cases hp : p = '*'
      · subst hp
        rw [endsMatched]
        cases hends : endsMatched text pattern with
        | nil => exact absurd hends ih
        | cons b bs => simp [anyFrom]
      · rw [endsMatched.eq_3 _ _ _ hp]
        simp

theorem endsMatched_tail_nil (pattern : List Char) : (endsMatched [] pattern).tail = [] := by
  induction pattern with
  | nil => rfl
  | cons p pattern ih =>
      by_cases hp : p = '*'
      · subst hp
        rw [endsMatched, anyFrom_tail, ih, anyFrom]
      · rw [endsMatched.eq_3 _ _ _ hp, List.zipWith_nil_left]
        rfl

theorem endsMatched_tail_cons (c : Char) (text pattern : List Char) :
    (endsMatched (c :: text) pattern).tail = endsMatched text pattern := by
  induction pattern with
  | nil => rfl
  | cons p pattern ih =>
      by_cases hp : p = '*'
      · subst hp
        rw [endsMatched, endsMatched, anyFrom_tail, ih]
      · rw [endsMatched.eq_3 _ _ _ hp, endsMatched.eq_3 _ _ _ hp, ih]
        cases hends : endsMatched text pattern with
        | nil => exact absurd hends (endsMatched_ne_nil text pattern)
        | cons b bs => rfl

def whole (pattern text : List Char) : Bool := (endsMatched text pattern).headD false

theorem whole_star_nil (pattern : List Char) : whole ('*' :: pattern) [] = whole pattern [] := by
  rw [whole, endsMatched, anyFrom_headD, endsMatched_tail_nil, anyFrom, List.headD_nil, Bool.or_false, whole]

theorem whole_star_cons (c : Char) (pattern text : List Char) :
    whole ('*' :: pattern) (c :: text) = (whole pattern (c :: text) || whole ('*' :: pattern) text) := by
  rw [whole, endsMatched, anyFrom_headD, endsMatched_tail_cons, whole, whole, endsMatched]

theorem whole_nil (hp : p ≠ '*') (pattern : List Char) : whole (p :: pattern) [] = false := by
  rw [whole, endsMatched.eq_3 _ _ _ hp, List.zipWith_nil_left]
  rfl

theorem whole_cons (hp : p ≠ '*') (c : Char) (pattern text : List Char) :
    whole (p :: pattern) (c :: text) = ((p = '?' || p = c) && whole pattern text) := by
  rw [whole, endsMatched.eq_3 _ _ _ hp, endsMatched_tail_cons, whole]
  cases hends : endsMatched text pattern with
  | nil => exact absurd hends (endsMatched_ne_nil text pattern)
  | cons b bs => rfl

theorem matches_star :
    Matches ('*' :: pattern) text ↔ ∃ skipped rest, text = skipped ++ rest ∧ Matches pattern rest := by
  constructor
  · intro h
    cases h with
    | star skipped h => exact ⟨skipped, _, rfl, h⟩
    | char _ hstar => exact absurd rfl hstar
  · rintro ⟨skipped, rest, rfl, h⟩
    exact .star skipped h

theorem matches_star_nil : Matches ('*' :: pattern) [] ↔ Matches pattern [] := by
  rw [matches_star]
  constructor
  · rintro ⟨skipped, rest, hnil, h⟩
    obtain ⟨-, rfl⟩ := List.append_eq_nil_iff.1 hnil.symm
    exact h
  · exact fun h => ⟨[], [], rfl, h⟩

/-- A star takes the text as it is, or leaves out its first character. -/
theorem matches_star_cons :
    Matches ('*' :: pattern) (c :: text) ↔ Matches pattern (c :: text) ∨ Matches ('*' :: pattern) text := by
  rw [matches_star, matches_star]
  constructor
  · rintro ⟨_ | ⟨d, skipped⟩, rest, htext, h⟩
    · exact .inl (htext ▸ h)
    · obtain ⟨-, rfl⟩ := List.cons.inj htext
      exact .inr ⟨skipped, rest, rfl, h⟩
  · rintro (h | ⟨skipped, rest, rfl, h⟩)
    · exact ⟨[], _, rfl, h⟩
    · exact ⟨c :: skipped, rest, rfl, h⟩

theorem matches_cons (hp : p ≠ '*') : Matches (p :: pattern) text ↔
    ∃ c rest, text = c :: rest ∧ (p = '?' ∨ p = c) ∧ Matches pattern rest := by
  constructor
  · intro h
    cases h with
    | star => exact absurd rfl hp
    | any c h => exact ⟨c, _, rfl, .inl rfl, h⟩
    | char _ _ h => exact ⟨p, _, rfl, .inr rfl, h⟩
  · rintro ⟨c, rest, rfl, rfl | rfl, h⟩
    · exact .any c h
    · exact .char p hp h

theorem whole_iff : whole pattern text = true ↔ Matches pattern text := by
  induction pattern generalizing text with
  | nil =>
      cases text with
      | nil => exact iff_of_true rfl .nil
      | cons c text => exact iff_of_false (by simp [whole, endsMatched]) (fun h => by cases h)
  | cons p pattern ih =>
      by_cases hp : p = '*'
      · subst hp
        induction text with
        | nil => rw [whole_star_nil, ih, matches_star_nil]
        | cons c text iht => rw [whole_star_cons, Bool.or_eq_true, ih, iht, matches_star_cons]
      · rw [matches_cons hp]
        cases text with
        | nil => simp [whole_nil hp]
        | cons c text =>
            rw [whole_cons hp, Bool.and_eq_true, Bool.or_eq_true, decide_eq_true_eq, decide_eq_true_eq, ih]
            constructor
            · exact fun h => ⟨c, text, rfl, h⟩
            · rintro ⟨_, _, ⟨⟩, h⟩
              exact h

theorem isMatch_iff (pattern text : String) :
    isMatch pattern text = true ↔ Matches pattern.toList text.toList := whole_iff

end EventMetrics.Wildcard
