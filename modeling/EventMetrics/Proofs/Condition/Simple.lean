import EventMetrics.Condition.Simple
import EventMetrics.Proofs.Table
import Mathlib.Tactic.ByContra

namespace EventMetrics

theorem DimensionKey.extract?_nil (e : Event) : extract? e [] = some .empty := rfl

namespace Condition.Simple

variable {c : Simple} {e : Event} {hits : Hits} {isStart : Bool} {k : DimensionKey}

theorem exists_of_mem_counts : c.anyOn = true ↔ ∃ k n, c.counts.get? k = some n ∧ 0 < n := by
  rw [anyOn, List.any_eq_true]
  constructor
  · rintro ⟨d, hd, hn⟩
    exact ⟨d.1, d.2, Table.get?_of_mem hd, of_decide_eq_true hn⟩
  · rintro ⟨k, n, hk, hn⟩
    rcases Table.filter_entries c.counts.entries c.counts.ascending k with
      ⟨hnone, -⟩ | ⟨j, v, -, hv, hf⟩
    · rw [Table.get?, hnone] at hk
      cases hk
    · rw [Table.get?, hv] at hk
      cases hk
      have hmem : (j, n) ∈ c.counts.entries.filter (fun e => Keyed.text e.1 = Keyed.text k) := by
        simp [hf]
      exact ⟨(j, n), (List.mem_filter.1 hmem).1, decide_eq_true hn⟩

theorem overall_congr {c' : Simple} (hdims : c'.dimensions = c.dimensions) (hne : c.dimensions ≠ [])
    (hon : c'.anyOn = true ↔ c.anyOn = true)
    (hoff : (if c'.counts.isEmpty then c'.unseen else .off) = if c.counts.isEmpty then c.unseen else .off) :
    c'.overall = c.overall := by
  have hany : c'.anyOn = c.anyOn := Bool.eq_iff_iff.2 hon
  simp only [overall, hdims, hany, hoff, List.isEmpty_iff, hne, if_false]

theorem anyOn_insert {n m : Nat} (hk : c.counts.get? k = some m) (hn : 0 < n ↔ 0 < m) :
    { c with counts := c.counts.insert k n }.anyOn = true ↔ c.anyOn = true := by
  simp only [exists_of_mem_counts, Table.get?_insert]
  constructor
  · rintro ⟨j, w, hj, hw⟩
    split at hj
    · cases hj
      exact ⟨k, m, hk, hn.1 hw⟩
    · exact ⟨j, w, hj, hw⟩
  · rintro ⟨j, w, hj, hw⟩
    by_cases he : Keyed.text j = Keyed.text k
    · rw [Table.get?_congr he, hk] at hj
      cases hj
      exact ⟨j, n, if_pos he, hn.2 hw⟩
    · exact ⟨j, w, by rw [if_neg he, hj], hw⟩

theorem anyOn_erase (hk : c.counts.get? k = some 0) :
    { c with counts := c.counts.erase k }.anyOn = true ↔ c.anyOn = true := by
  simp only [exists_of_mem_counts, Table.get?_erase]
  constructor
  · rintro ⟨j, w, hj, hw⟩
    split at hj
    · cases hj
    · exact ⟨j, w, hj, hw⟩
  · rintro ⟨j, w, hj, hw⟩
    by_cases he : Keyed.text j = Keyed.text k
    · rw [Table.get?_congr he, hk] at hj
      cases hj
      exact absurd hw (by omega)
    · exact ⟨j, w, by rw [if_neg he, hj], hw⟩

theorem turn_cases (c : Simple) (isStart : Bool) (k : DimensionKey) :
    (c.turn isStart k).1 = c ∨
    ∃ n counts, (c.turn isStart k).1 = { c with counts } ∧
      (counts = c.counts.erase k ∧ n = 0 ∧ c.unseen = .off ∧ (c.counts.get? k).isSome = true ∨
        counts = c.counts.insert k n ∧ ¬ (n = 0 ∧ c.unseen = .off)) ∧
      ((c.turn isStart k).2 ≠ .changed → { c with counts }.signalAt k = c.signalAt k) := by
  rw [turn]
  dsimp only
  split
  next => exact .inl rfl
  next hknown =>
    split
    next => exact .inl rfl
    next =>
      right
      refine ⟨c.nextCount isStart ((c.counts.get? k).getD 0), _, rfl, ?_, ?_⟩
      · split
        next hn =>
          left
          refine ⟨rfl, hn.1, by simpa using hn.2, ?_⟩
          -- a key without a count starts, and then it counts
          rw [Option.isSome_iff_ne_none]
          intro hnone
          have hstart : isStart = true := by simpa [Table.contains, hnone, hn.2] using hknown
          have hzero := hn.1
          simp only [hnone, Option.getD_none, hstart, nextCount, if_true] at hzero
          split at hzero <;> omega
        next hn => exact .inr ⟨rfl, by simpa using hn⟩
      · intro h
        by_contra hne
        rw [if_neg hne] at h
        exact h rfl

theorem turn_overall (hunseen : c.unseen ≠ .on)
    (hkey : c.dimensions = [] → Keyed.text k = Keyed.text DimensionKey.empty)
    (h : (c.turn isStart k).2 ≠ .changed) : (c.turn isStart k).1.overall = c.overall := by
  rcases turn_cases c isStart k with hc | ⟨n, counts, hc, hcounts, hsame⟩
  · rw [hc]
  rw [hc]
  specialize hsame h
  by_cases hdims : c.dimensions = []
  · have hempty : ∀ d : Simple, d.dimensions = [] → d.overall = d.signalAt k := by
      intro d hd
      simp only [overall, hd, List.isEmpty_nil, if_true, signalAt, Table.get?_congr (hkey hdims)]
    rw [hempty c hdims, hempty { c with counts } hdims, hsame]
  cases hk : c.counts.get? k with
  | none =>
      rcases hcounts with ⟨-, -, -, hsome⟩ | ⟨rfl, hn⟩
      · simp [hk] at hsome
      · simp only [signalAt, Table.get?_insert, if_true, hk] at hsame
        by_cases hpos : 0 < n
        · rw [decide_eq_true hpos] at hsame
          exact absurd hsame.symm hunseen
        · rw [decide_eq_false hpos] at hsame
          exact absurd ⟨by omega, hsame.symm⟩ hn
  | some m =>
      rcases hcounts with ⟨rfl, -, hoff, -⟩ | ⟨rfl, -⟩
      · have hm : m = 0 := by
          simp only [signalAt, Table.get?_erase, if_true, hk, hoff] at hsame
          by_contra hm
          simp [Signal.ofBool, Nat.pos_of_ne_zero hm] at hsame
        subst hm
        exact overall_congr rfl hdims (anyOn_erase hk) (by simp [hoff])
      · have hiff : 0 < n ↔ 0 < m := by
          simp only [signalAt, Table.get?_insert, if_true, hk] at hsame
          by_cases hn : 0 < n <;> by_cases hm : 0 < m <;> simp_all [Signal.ofBool]
        have hfull : ∀ {t : Table DimensionKey Nat} {w : Nat}, t.get? k = some w → t.isEmpty = false := by
          intro t w ht
          rw [← Bool.not_eq_true, Table.isEmpty_iff]
          intro hnone
          simp [hnone k] at ht
        refine overall_congr rfl hdims (anyOn_insert hk hiff) ?_
        rw [hfull hk, hfull ((Table.get?_insert c.counts k k n).trans (if_pos rfl))]

theorem turn_dropped {r : DropReason} (h : (c.turn isStart k).2 = .dropped r) :
    (c.turn isStart k).1 = c := by
  have hturned : ∀ (p : Prop) [Decidable p], (if p then Effect.unchanged else .changed) ≠ .dropped r := by
    intro p _
    split <;> simp
  rw [turn] at h ⊢
  dsimp only at h ⊢
  split at h
  next hidle => rw [if_pos hidle]
  next hidle =>
    rw [if_neg hidle]
    split at h
    next hfull => rw [if_pos hfull]
    next => exact absurd h (hturned _)

theorem onEvent_dropped {r : DropReason} (h : (c.onEvent e hits).2 = .dropped r) :
    (c.onEvent e hits).1 = c := by
  unfold onEvent at h ⊢
  split at h
  next hall =>
    rw [stopEverything] at h
    dsimp only at h
    split at h <;> cases h
  next hall =>
    rw [if_neg hall]
    cases hstart : hits.get c.start <;> cases hstop : hits.get c.stop <;> simp only [hstart, hstop] at h ⊢
    -- an event that is both, or neither, stops short of the keys
    all_goals
      cases hkey : DimensionKey.extract? e c.dimensions with
      | none => rfl
      | some k =>
          simp only [hkey] at h
          exact turn_dropped h

theorem still_of_stopEverything (h : c.stopEverything.2 ≠ .changed) :
    c.unseen = .off ∧ ∀ k n, c.counts.get? k = some n → n = 0 := by
  have hstill : c.unseen = .off ∧ c.anyOn = false := by
    rw [stopEverything] at h
    dsimp only at h
    split at h
    · exact absurd rfl h
    next hc => simpa using hc
  refine ⟨hstill.1, fun k n hk => ?_⟩
  by_contra hn
  have hon := exists_of_mem_counts.2 ⟨k, n, hk, Nat.pos_of_ne_zero hn⟩
  simp [hstill.2] at hon

theorem stopEverything_overall (h : c.stopEverything.2 ≠ .changed) :
    c.stopEverything.1.overall = c.overall := by
  obtain ⟨hoff, hzero⟩ := still_of_stopEverything h
  by_cases hdims : c.dimensions = []
  · simp only [stopEverything, overall, hdims, List.isEmpty_nil, if_true, signalAt, Table.get?_empty,
      hoff]
    cases hk : c.counts.get? .empty with
    | none => rfl
    | some n => simp [hzero _ n hk, Signal.ofBool]
  · refine overall_congr rfl hdims ?_ (by simp [stopEverything, hoff])
    simp only [exists_of_mem_counts, stopEverything, Table.get?_empty]
    constructor
    · rintro ⟨_, _, ⟨⟩, -⟩
    · rintro ⟨k, n, hk, hn⟩
      exact absurd hn (by simp [hzero k n hk])

theorem onEvent_overall (hunseen : c.unseen ≠ .on) (h : (c.onEvent e hits).2 ≠ .changed) :
    (c.onEvent e hits).1.overall = c.overall := by
  rw [onEvent] at h ⊢
  split
  next hstop =>
    rw [if_pos hstop] at h
    exact stopEverything_overall h
  next hstop =>
    rw [if_neg hstop] at h
    split
    · rfl
    · rfl
    next isStart hs hb =>
      split
      next => rfl
      next k hk =>
        refine turn_overall hunseen (fun hnil => ?_) (by simpa [hk] using h)
        rw [hnil, DimensionKey.extract?_nil] at hk
        cases hk
        rfl

theorem signalAt_congr {j : DimensionKey} (h : Keyed.text j = Keyed.text k) (c : Simple) :
    c.signalAt j = c.signalAt k := by
  rw [signalAt, signalAt, Table.get?_congr h]

theorem turn_signalAt (h : (c.turn isStart k).2 ≠ .changed) (j : DimensionKey) :
    (c.turn isStart k).1.signalAt j = c.signalAt j := by
  rcases turn_cases c isStart k with hc | ⟨n, counts, hc, hcounts, hsame⟩
  · rw [hc]
  · rw [hc]
    by_cases hj : Keyed.text j = Keyed.text k
    · rw [signalAt_congr hj, signalAt_congr hj, hsame h]
    · have hother : counts.get? j = c.counts.get? j := by
        rcases hcounts with ⟨rfl, -⟩ | ⟨rfl, -⟩
        · exact (Table.get?_erase c.counts k j).trans (if_neg hj)
        · exact (Table.get?_insert c.counts k j n).trans (if_neg hj)
      simp only [signalAt, hother]

theorem stopEverything_signalAt (h : c.stopEverything.2 ≠ .changed) (j : DimensionKey) :
    c.stopEverything.1.signalAt j = c.signalAt j := by
  obtain ⟨hoff, hzero⟩ := still_of_stopEverything h
  simp only [stopEverything, signalAt, Table.get?_empty, hoff]
  cases hj : c.counts.get? j with
  | none => rfl
  | some n => simp [hzero j n hj, Signal.ofBool]

theorem onEvent_signalAt (h : (c.onEvent e hits).2 ≠ .changed) (j : DimensionKey) :
    (c.onEvent e hits).1.signalAt j = c.signalAt j := by
  rw [onEvent] at h ⊢
  split
  next hstop =>
    rw [if_pos hstop] at h
    exact stopEverything_signalAt h j
  next hstop =>
    rw [if_neg hstop] at h
    split
    · rfl
    · rfl
    next isStart hs hb =>
      split
      next => rfl
      next k hk => exact turn_signalAt (by simpa [hk] using h) j

theorem onEvent_eq (c : Simple) (e : Event) (hits : Hits) :
    ∃ unseen counts, (c.onEvent e hits).1 = { c with unseen, counts } := by
  have hsame : ∃ unseen counts, c = { c with unseen, counts } := ⟨c.unseen, c.counts, rfl⟩
  rw [onEvent]
  split
  · exact ⟨_, _, rfl⟩
  · split
    · exact hsame
    · exact hsame
    · split
      · exact hsame
      next k _ =>
        rcases turn_cases c (hits.get c.start) k with h | ⟨_, counts, h, -⟩
        · exact ⟨c.unseen, c.counts, h⟩
        · exact ⟨c.unseen, counts, h⟩

theorem onEvent_unseen (hunseen : c.unseen ≠ .on) : (c.onEvent e hits).1.unseen ≠ .on := by
  rw [onEvent]
  split
  · simp [stopEverything]
  · split
    · exact hunseen
    · exact hunseen
    · split
      · exact hunseen
      next k hk =>
        rcases turn_cases c _ k with hc | ⟨n, counts, hc, -, -⟩
        · rwa [hc]
        · rwa [hc]

def Within (n : Nat) (c : Simple) : Prop := ∀ k m, c.counts.get? k = some m → m ≤ n

theorem within_of_empty (h : c.counts = .empty) : c.Within 0 := fun k m hk => by
  rw [h] at hk
  cases hk

theorem nextCount_le (c : Simple) (isStart : Bool) (n : Nat) : c.nextCount isStart n ≤ n + 1 := by
  rw [nextCount]
  cases isStart <;> cases c.nested <;> simp <;> omega

namespace Within

variable {n : Nat} (h : c.Within n)
include h

theorem getD_le (k : DimensionKey) : (c.counts.get? k).getD 0 ≤ n := by
  cases hk : c.counts.get? k with
  | none => exact Nat.zero_le n
  | some m => exact h k m hk

theorem succ : c.Within (n + 1) := fun k m hk => Nat.le_succ_of_le (h k m hk)

theorem turn (isStart : Bool) (k : DimensionKey) : (c.turn isStart k).1.Within (n + 1) := by
  have hnext := Nat.le_trans (c.nextCount_le isStart ((c.counts.get? k).getD 0)) (Nat.succ_le_succ (h.getD_le k))
  rw [Simple.turn]
  dsimp only
  split
  · exact h.succ
  · split
    · exact h.succ
    · intro j m hj
      dsimp only at hj
      split at hj
      · rw [Table.get?_erase] at hj
        split at hj
        · cases hj
        · exact h.succ j m hj
      · rw [Table.get?_insert] at hj
        split at hj
        · cases hj
          exact hnext
        · exact h.succ j m hj

theorem onEvent (e : Event) (hits : Hits) : (c.onEvent e hits).1.Within (n + 1) := by
  rw [Simple.onEvent]
  split
  · exact fun _ _ hk => by cases hk
  · split
    · exact h.succ
    · exact h.succ
    · split
      · exact h.succ
      · exact h.turn _ _

theorem countFits (hn : n + 1 < 4294967296) (e : Event) (hits : Hits) : c.countFits e hits = true := by
  rw [Simple.countFits]
  split
  · rfl
  · split
    next k _ _ _ =>
      have hle := h.getD_le k
      simp only [Bool.or_eq_true, decide_eq_true_eq]
      right
      omega
    next => rfl

end Within

end Condition.Simple

end EventMetrics
