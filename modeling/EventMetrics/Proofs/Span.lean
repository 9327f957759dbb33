import EventMetrics.Span
import Mathlib

namespace EventMetrics

namespace Text

variable {s t before after : List Char}

theorem trimList_eq (hbefore : ∀ c ∈ before, isBlank c) (hafter : ∀ c ∈ after, isBlank c)
    (hfirst : ∀ c ∈ t.head?, ¬ isBlank c) (hlast : ∀ c ∈ t.getLast?, ¬ isBlank c) :
    trimList (before ++ t ++ after) = t := by
  have hstop : ∀ l : List Char, (∀ c ∈ l.head?, ¬ isBlank c) → l.dropWhile isBlank = l := by
    intro l hl
    cases l with
    | nil => rfl
    | cons c l => exact List.dropWhile_cons_of_neg (hl c rfl)
  cases t with
  | nil =>
      have hblank : ∀ c ∈ before ++ after, isBlank c := fun c hc =>
        (List.mem_append.1 hc).elim (hbefore c) (hafter c)
      rw [trimList, List.append_nil, List.dropWhile_eq_nil_iff.2 hblank]
      rfl
  | cons c t =>
      have hleft : (before ++ (c :: t) ++ after).dropWhile isBlank = (c :: t) ++ after := by
        rw [List.append_assoc, List.dropWhile_append_of_pos hbefore]
        exact hstop _ hfirst
      have hright : ((c :: t) ++ after).reverse.dropWhile isBlank = (c :: t).reverse := by
        rw [List.reverse_append, List.dropWhile_append_of_pos fun c hc => hafter c (List.mem_reverse.1 hc)]
        exact hstop _ (by rwa [List.head?_reverse])
      rw [trimList, hleft, hright, List.reverse_reverse]

theorem exists_blanks (s : List Char) : ∃ before after, s = before ++ trimList s ++ after ∧
    (∀ c ∈ before, isBlank c) ∧ ∀ c ∈ after, isBlank c := by
  refine ⟨s.takeWhile isBlank, ((s.dropWhile isBlank).reverse.takeWhile isBlank).reverse, ?_,
    fun c hc => List.mem_takeWhile_imp hc, fun c hc => List.mem_takeWhile_imp (List.mem_reverse.1 hc)⟩
  rw [trimList, List.append_assoc, ← List.reverse_append, List.takeWhile_append_dropWhile, List.reverse_reverse,
    List.takeWhile_append_dropWhile]

theorem decimalValue_eq (digits : List Char) : decimalValue digits = Nat.ofDigitChars 10 digits 0 := rfl

theorem decimalValue_toDigits (n : Nat) : decimalValue (Nat.toDigits 10 n) = n := Nat.ofDigitChars_ten_toDigits

theorem wordLimit_eq : wordLimit = 2 ^ 64 := by norm_num [wordLimit]

theorem not_isBlank_of_isDigit {c : Char} (h : c.isDigit) : ¬ isBlank c := by
  simp only [Char.isDigit, Bool.and_eq_true, decide_eq_true_eq, ge_iff_le, UInt32.le_iff_toNat_le] at h
  have hlow : 48 ≤ c.toNat := h.1
  have hhigh : c.toNat ≤ 57 := h.2
  simp only [isBlank, Bool.or_eq_true, Bool.and_eq_true, decide_eq_true_eq, beq_iff_eq]
  omega

end Text

namespace TimeUnit

theorem ofSuffix?_suffix (u : TimeUnit) : ofSuffix? u.suffix = some u := by cases u <;> rfl

theorem suffix_of_ofSuffix? {s : String} {u : TimeUnit} (h : ofSuffix? s = some u) : u.suffix = s := by
  simpa using List.find?_some h

theorem nanos_pos (u : TimeUnit) : 0 < u.nanos := by cases u <;> decide

end TimeUnit

namespace Span

open Text

variable {s : String} {d : Span} {digits : List Char} {u : TimeUnit}

/-- A whole number in digits, and a unit right after it. -/
structure Written (text digits : List Char) (u : TimeUnit) : Prop where
  eq_append : text = digits ++ u.suffix.toList
  ne_nil : digits ≠ []
  isDigit : ∀ c ∈ digits, c.isDigit

theorem suffix_split (u : TimeUnit) : ∃ c rest, u.suffix.toList = c :: rest ∧ c.isDigit = false := by
  cases u <;> exact ⟨_, _, rfl, by decide⟩

theorem not_isBlank_of_mem_suffix : ∀ c ∈ u.suffix.toList, ¬ isBlank c := by
  cases u <;> simp [TimeUnit.suffix, isBlank]

namespace Written

variable {text : List Char}

theorem takeWhile_eq (h : Written text digits u) : text.takeWhile Char.isDigit = digits := by
  obtain ⟨c, rest, hsuffix, hc⟩ := suffix_split u
  rw [h.eq_append, List.takeWhile_append_of_pos h.isDigit, hsuffix, List.takeWhile_cons_of_neg (by simp [hc]),
    List.append_nil]

theorem dropWhile_eq (h : Written text digits u) : text.dropWhile Char.isDigit = u.suffix.toList := by
  obtain ⟨c, rest, hsuffix, hc⟩ := suffix_split u
  rw [h.eq_append, List.dropWhile_append_of_pos h.isDigit, hsuffix, List.dropWhile_cons_of_neg (by simp [hc])]

theorem not_isBlank (h : Written text digits u) : ∀ c ∈ text, ¬ isBlank c := by
  intro c hc
  rw [h.eq_append] at hc
  rcases List.mem_append.1 hc with hc | hc
  · exact not_isBlank_of_isDigit (h.isDigit c hc)
  · exact not_isBlank_of_mem_suffix c hc

theorem trimList_eq (h : Written text digits u) {before after : List Char} (hbefore : ∀ c ∈ before, isBlank c)
    (hafter : ∀ c ∈ after, isBlank c) : trimList (before ++ text ++ after) = text :=
  Text.trimList_eq hbefore hafter (fun c hc => h.not_isBlank c (List.mem_of_mem_head? hc))
    fun c hc => h.not_isBlank c (List.mem_of_getLast? hc)

theorem trimList_self (h : Written text digits u) : trimList text = text := by
  have hnone : ∀ c ∈ ([] : List Char), isBlank c := List.forall_mem_nil _
  simpa using h.trimList_eq hnone hnone

end Written

/-- What is written as a length is refused only for its size: either the number or the length does not fit
in a word. -/
theorem read_of_written (h : Written (trimList s.toList) digits u) :
    read s = if wordLimit ≤ decimalValue digits then .error (.badNumber (trim s))
      else if wordLimit ≤ decimalValue digits * u.nanos then .error (.overflow (trim s))
      else .ok ⟨decimalValue digits * u.nanos⟩ := by
  have hsome : (trimList s.toList).isEmpty = false := by
    simp [h.eq_append, h.ne_nil]
  have hsuffix : u.suffix.toList.isEmpty = false := by
    obtain ⟨c, rest, hsuffix, -⟩ := suffix_split u
    simp [hsuffix]
  have hdigits : digits.isEmpty = false := by
    simp [h.ne_nil]
  simp only [read, h.takeWhile_eq, h.dropWhile_eq, hsome, hsuffix, hdigits, String.ofList_toList,
    TimeUnit.ofSuffix?_suffix, Bool.false_eq_true, if_false]
  rfl

theorem exists_written (h : read s = .ok d) : ∃ digits u, Written (trimList s.toList) digits u := by
  simp only [read] at h
  split at h
  · cases h
  split at h
  · cases h
  split at h
  · cases h
  next hdigits =>
  split at h
  · cases h
  split at h
  · cases h
  next u hu =>
  refine ⟨(trimList s.toList).takeWhile Char.isDigit, u, ?_, by simpa using hdigits,
    fun c hc => List.mem_takeWhile_imp hc⟩
  rw [TimeUnit.suffix_of_ofSuffix? hu, String.toList_ofList, List.takeWhile_append_dropWhile]

theorem of_read (h : read s = .ok d) : ∃ digits u, Written (trimList s.toList) digits u ∧
    decimalValue digits < wordLimit ∧ decimalValue digits * u.nanos < wordLimit ∧
    d = ⟨decimalValue digits * u.nanos⟩ := by
  obtain ⟨digits, u, hwritten⟩ := exists_written h
  rw [read_of_written hwritten] at h
  split at h
  · cases h
  next hnumber =>
  split at h
  · cases h
  next hlength =>
  exact ⟨digits, u, hwritten, not_le.1 hnumber, not_le.1 hlength, (Except.ok.inj h).symm⟩

theorem nanos_lt_of_read (h : read s = .ok d) : d.nanos < 2 ^ 64 := by
  obtain ⟨digits, u, -, -, hlength, rfl⟩ := of_read h
  exact wordLimit_eq ▸ hlength

def whiteSpace : List Nat := List.range' 9 5 ++ [0x20, 0x85, 0xA0, 0x1680] ++ List.range' 0x2000 11 ++
  [0x2028, 0x2029, 0x202F, 0x205F, 0x3000]

theorem isBlank_iff (c : Char) : isBlank c = true ↔ c.toNat ∈ whiteSpace := by
  simp only [isBlank, whiteSpace, List.mem_append, List.mem_range'_1, List.mem_cons, List.not_mem_nil, or_false,
    Bool.or_eq_true, Bool.and_eq_true, decide_eq_true_eq, beq_iff_eq]
  omega

/-- The suffixes of the units and the nanoseconds that each stands for. -/
theorem exists_unit_iff {suffix : String} {nanos : Nat} : (∃ u : TimeUnit, u.suffix = suffix ∧ u.nanos = nanos) ↔
    (suffix, nanos) ∈ [("ns", 1), ("us", 1000), ("ms", 1000000), ("s", 1000000000), ("m", 60 * 1000000000),
      ("h", 3600 * 1000000000), ("d", 86400 * 1000000000)] := by
  constructor
  · rintro ⟨u, rfl, rfl⟩
    cases u <;> decide
  · intro h
    simp only [List.mem_cons, List.not_mem_nil, or_false, Prod.mk.injEq] at h
    rcases h with ⟨rfl, rfl⟩ | ⟨rfl, rfl⟩ | ⟨rfl, rfl⟩ | ⟨rfl, rfl⟩ | ⟨rfl, rfl⟩ | ⟨rfl, rfl⟩ | ⟨rfl, rfl⟩
    · exact ⟨.nanosecond, rfl, rfl⟩
    · exact ⟨.microsecond, rfl, rfl⟩
    · exact ⟨.millisecond, rfl, rfl⟩
    · exact ⟨.second, rfl, rfl⟩
    · exact ⟨.minute, rfl, rfl⟩
    · exact ⟨.hour, rfl, rfl⟩
    · exact ⟨.day, rfl, rfl⟩

/-- A text reads as a length just when it is, but for white space at its ends, a run of digits right before one of seven
units, and both the number and the length fit in a word. -/
theorem read_eq_ok_iff (s : String) (d : Span) :
    read s = .ok d ↔ ∃ (before digits after : List Char) (suffix : String) (nanos : Nat),
      (suffix, nanos) ∈ [("ns", 1), ("us", 1000), ("ms", 1000000), ("s", 1000000000), ("m", 60 * 1000000000),
        ("h", 3600 * 1000000000), ("d", 86400 * 1000000000)] ∧
      s.toList = before ++ (digits ++ suffix.toList) ++ after ∧
      (∀ c ∈ before ++ after, c.toNat ∈ whiteSpace) ∧
      digits ≠ [] ∧ (∀ c ∈ digits, c.isDigit) ∧
      Nat.ofDigitChars 10 digits 0 < 2 ^ 64 ∧
      Nat.ofDigitChars 10 digits 0 * nanos < 2 ^ 64 ∧
      d.nanos = Nat.ofDigitChars 10 digits 0 * nanos := by
  simp only [← wordLimit_eq, ← isBlank_iff]
  constructor
  · intro h
    obtain ⟨digits, u, hwritten, hnumber, hlength, rfl⟩ := of_read h
    obtain ⟨before, after, hs, hbefore, hafter⟩ := exists_blanks s.toList
    exact ⟨before, digits, after, u.suffix, u.nanos, exists_unit_iff.1 ⟨u, rfl, rfl⟩, hwritten.eq_append ▸ hs,
      List.forall_mem_append.2 ⟨hbefore, hafter⟩, hwritten.ne_nil, hwritten.isDigit, hnumber, hlength, rfl⟩
  · rintro ⟨before, digits, after, suffix, nanos, hunit, hs, hblank, hne, hdigits, hnumber, hlength, hd⟩
    obtain ⟨hbefore, hafter⟩ := List.forall_mem_append.1 hblank
    obtain ⟨u, rfl, rfl⟩ := exists_unit_iff.2 hunit
    have hwritten : Written (digits ++ u.suffix.toList) digits u := ⟨rfl, hne, hdigits⟩
    have htrim : trimList s.toList = digits ++ u.suffix.toList := by
      rw [hs, hwritten.trimList_eq hbefore hafter]
    rw [← decimalValue_eq] at hnumber hlength hd
    rw [read_of_written (htrim ▸ hwritten), if_neg (not_le.2 hnumber), if_neg (not_le.2 hlength), ← hd]

theorem unit_dvd (d : Span) : d.unit.nanos ∣ d.nanos := by
  rw [unit]
  cases h : TimeUnit.all.find? (fun u => d.nanos % u.nanos = 0) with
  | none => exact one_dvd d.nanos
  | some u =>
      have hu := List.find?_some h
      exact Nat.dvd_of_mod_eq_zero (of_decide_eq_true hu)

theorem render_written (d : Span) : ∃ n u, n * u.nanos = d.nanos ∧
    Written d.render.toList (Nat.toDigits 10 n) u := by
  have hdigits (n : Nat) : ∀ c ∈ Nat.toDigits 10 n, c.isDigit := fun c hc =>
    Nat.isDigit_of_mem_toDigits (by decide) (by decide) hc
  by_cases hd : d.nanos = 0
  · refine ⟨0, .second, by rw [hd, Nat.zero_mul], ?_, Nat.toDigits_ne_nil, hdigits 0⟩
    rw [render, if_pos hd]
    rfl
  · refine ⟨d.nanos / d.unit.nanos, d.unit, Nat.div_mul_cancel d.unit_dvd, ?_, Nat.toDigits_ne_nil, hdigits _⟩
    rw [render, if_neg hd, String.toList_append, Nat.toString_eq_repr, Nat.toList_repr]

/-- Reading gives a length back from its text as long as it fits in a word. A greater one is refused, and so
what was read once is read again as the same. -/
theorem read_render (d : Span) :
    (d.nanos < 2 ^ 64 → read d.render = .ok d) ∧
    (2 ^ 64 ≤ d.nanos → ∃ e, read d.render = .error e) ∧
    ∀ s, read s = .ok d → read d.render = .ok d := by
  obtain ⟨n, u, hn, hwritten⟩ := render_written d
  have hread := read_of_written (hwritten.trimList_self ▸ hwritten)
  rw [decimalValue_toDigits, hn, wordLimit_eq] at hread
  have hfits (hd : d.nanos < 2 ^ 64) : read d.render = .ok d := by
    have hle : n ≤ d.nanos := hn ▸ Nat.le_mul_of_pos_right n u.nanos_pos
    rw [hread, if_neg (not_le.2 (hle.trans_lt hd)), if_neg (not_le.2 hd)]
  refine ⟨hfits, fun hd => ?_, fun s hs => hfits (nanos_lt_of_read hs)⟩
  rw [hread, if_pos hd]
  split <;> exact ⟨_, rfl⟩

/-- The greatest length that is read back, the next one, and one that is written in another unit than it was read
in. -/
theorem read_render_word :
    let greatest : Span := ⟨18446744073709551615⟩
    let next : Span := ⟨18446744073709551616⟩
    let days : Span := ⟨172800000000000⟩
    (greatest.nanos < 2 ^ 64 ∧ read greatest.render = .ok greatest) ∧
    (2 ^ 64 ≤ next.nanos ∧ ∃ e, read next.render = .error e) ∧
    read " 48h " = .ok days ∧ days.render = "2d" ∧ read days.render = .ok days := by
  intro greatest next days
  have hgreatest : greatest.nanos < 2 ^ 64 := by norm_num [greatest]
  have hnext : 2 ^ 64 ≤ next.nanos := by norm_num [next]
  have hread : read " 48h " = .ok days := by decide +kernel
  exact ⟨⟨hgreatest, (read_render greatest).1 hgreatest⟩, ⟨hnext, (read_render next).2.1 hnext⟩, hread,
    by decide +kernel, (read_render days).2.2 _ hread⟩

end Span
end EventMetrics
