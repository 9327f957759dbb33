import EventMetrics.Proofs.Condition.Simple
import Mathlib.Data.List.DropRight

namespace EventMetrics

/-- On where `on` holds, else off where `off` does, else unknown. -/
structure Signal.Tells (s : Signal) (on off : Prop) : Prop where
  on_iff : s = .on ↔ on
  off_iff : s = .off ↔ ¬ on ∧ off

theorem Signal.Tells.eq {s s' : Signal} {on off : Prop} (h : s.Tells on off) (h' : s'.Tells on off) : s = s' := by
  have hon := h.on_iff.trans h'.on_iff.symm
  have hoff := h.off_iff.trans h'.off_iff.symm
  cases s <;> cases s' <;> simp_all

theorem Signal.tells_ofBool {b : Bool} {on off : Prop} (h : b = true ↔ on) (hoff : ¬ on → off) :
    (ofBool b).Tells on off := by
  cases b <;> constructor <;> simp_all [ofBool]

namespace Condition.Simple

structure Turn where
  isStart : Bool
  key : DimensionKey

namespace Turn

def IsOf (t : Turn) (k : DimensionKey) : Prop := Keyed.text t.key = Keyed.text k

instance (t : Turn) (k : DimensionKey) : Decidable (t.IsOf k) := inferInstanceAs (Decidable (_ = _))

/-- What a count comes to: nested starts need as many stops, otherwise the last turn decides. -/
def count (nested : Bool) (n : Nat) (t : Turn) : Nat :=
  match nested, t.isStart with
  | true, true => n + 1
  | true, false => n - 1
  | false, true => 1
  | false, false => 0

end Turn

def level (nested : Bool) (ts : List Turn) (k : DimensionKey) : Nat :=
  (ts.filter (·.IsOf k)).foldl (Turn.count nested) 0

abbrev Sighting := Event × Hits

def stopsAll (c : Simple) (s : Sighting) : Bool := c.stopAll.any s.2.get

/-- The turn that an event makes. One that is start and stop at once makes none, nor does one without
the fields of a key. -/
def turn? (c : Simple) (s : Sighting) : Option Turn :=
  match s.2.get c.start, s.2.get c.stop with
  | true, false => (DimensionKey.extract? s.1 c.dimensions).map (⟨true, ·⟩)
  | false, true => (DimensionKey.extract? s.1 c.dimensions).map (⟨false, ·⟩)
  | _, _ => none

/-- The turns after everything was last stopped. -/
def history (c : Simple) (ss : List Sighting) : List Turn :=
  (ss.rtakeWhile fun s => !c.stopsAll s).filterMap c.turn?

def after (c : Simple) (ss : List Sighting) : Simple := ss.foldl (fun c s => (c.onEvent s.1 s.2).1) c

def effects (c : Simple) : List Sighting → List Effect
  | [] => []
  | s :: ss => (c.onEvent s.1 s.2).2 :: effects (c.onEvent s.1 s.2).1 ss

/-- The counts of all keys that had a turn, those that came to nothing included. -/
def ledger (nested : Bool) (ts : List Turn) : Table DimensionKey Nat :=
  ts.foldl (fun counts t => counts.insert t.key (level nested ts t.key)) .empty

variable {c : Simple} {e : Event} {hits : Hits} {k : DimensionKey} {s : Sighting} {ss : List Sighting}
  {t : Turn} {ts : List Turn} {nested : Bool}

theorem level_congr {j : DimensionKey} (h : Keyed.text j = Keyed.text k) (nested : Bool) (ts : List Turn) :
    level nested ts j = level nested ts k := by
  have hsame : ∀ t ∈ ts, decide (t.IsOf j) = decide (t.IsOf k) := fun t _ =>
    decide_eq_decide.2 (by rw [Turn.IsOf, Turn.IsOf, h])
  rw [level, level, List.filter_congr hsame]

theorem level_concat (nested : Bool) (ts : List Turn) (t : Turn) (k : DimensionKey) :
    level nested (ts ++ [t]) k =
      if t.IsOf k then Turn.count nested (level nested ts k) t else level nested ts k := by
  by_cases h : t.IsOf k <;> simp [level, List.filter_append, h]

theorem level_of_not_isOf (h : ¬ ∃ t ∈ ts, t.IsOf k) (nested : Bool) : level nested ts k = 0 := by
  have hnone : ts.filter (·.IsOf k) = [] := List.filter_eq_nil_iff.2 fun t ht hk => h ⟨t, ht, by simpa using hk⟩
  rw [level, hnone, List.foldl_nil]

theorem Turn.count_le (nested : Bool) (n : Nat) (t : Turn) : Turn.count nested n t ≤ n + 1 := by
  unfold Turn.count
  split <;> omega

theorem level_le_length (nested : Bool) (ts : List Turn) (k : DimensionKey) : level nested ts k ≤ ts.length := by
  induction ts using List.reverseRecOn with
  | nil => exact Nat.le_refl 0
  | append_singleton ts t ih =>
      rw [level_concat, List.length_append, List.length_singleton]
      split
      · exact (Turn.count_le nested _ t).trans (Nat.add_le_add_right ih 1)
      · exact Nat.le_succ_of_le ih

theorem history_concat (c : Simple) (ss : List Sighting) (s : Sighting) :
    c.history (ss ++ [s]) = if c.stopsAll s then [] else c.history ss ++ (c.turn? s).toList := by
  rw [history, List.rtakeWhile_concat]
  cases c.stopsAll s with
  | true => rfl
  | false => cases h : c.turn? s <;> simp [history, List.filterMap_append, h]

theorem length_history_le (c : Simple) (ss : List Sighting) : (c.history ss).length ≤ ss.length :=
  (List.length_filterMap_le _ _).trans (List.rtakeWhile_suffix _ ss).length_le

theorem after_concat (c : Simple) (ss : List Sighting) (s : Sighting) :
    c.after (ss ++ [s]) = ((c.after ss).onEvent s.1 s.2).1 := by
  rw [after, List.foldl_concat, after]

theorem effects_concat (c : Simple) (ss : List Sighting) (s : Sighting) :
    c.effects (ss ++ [s]) = c.effects ss ++ [((c.after ss).onEvent s.1 s.2).2] := by
  induction ss generalizing c with
  | nil => rfl
  | cons r ss ih => exact congrArg (_ :: ·) (ih _)

theorem after_eq (c : Simple) (ss : List Sighting) : ∃ unseen counts, c.after ss = { c with unseen, counts } := by
  induction ss using List.reverseRecOn with
  | nil => exact ⟨c.unseen, c.counts, rfl⟩
  | append_singleton ss s ih =>
      obtain ⟨unseen, counts, ih⟩ := ih
      obtain ⟨unseen', counts', h⟩ := onEvent_eq (c.after ss) s.1 s.2
      exact ⟨unseen', counts', by rw [after_concat, h, ih]⟩

theorem onEvent_of_stopsAll (h : c.stopsAll s = true) : c.onEvent s.1 s.2 = c.stopEverything := by
  rw [stopsAll] at h
  rw [onEvent, if_pos h]

theorem onEvent_of_turn (h : c.stopsAll s = false) (ht : c.turn? s = some t) :
    c.onEvent s.1 s.2 = c.turn t.isStart t.key := by
  rw [stopsAll] at h
  rw [turn?] at ht
  rw [onEvent, if_neg (by simp [h])]
  cases hstart : s.2.get c.start <;> cases hstop : s.2.get c.stop <;> simp only [hstart, hstop] at ht ⊢
  · cases ht
  · obtain ⟨k, hk, rfl⟩ := Option.map_eq_some_iff.1 ht
    simp only [hk]
  · obtain ⟨k, hk, rfl⟩ := Option.map_eq_some_iff.1 ht
    simp only [hk]
  · cases ht

theorem onEvent_of_turn_none (h : c.stopsAll s = false) (ht : c.turn? s = none) : (c.onEvent s.1 s.2).1 = c := by
  rw [stopsAll] at h
  rw [turn?] at ht
  rw [onEvent, if_neg (by simp [h])]
  cases hstart : s.2.get c.start <;> cases hstop : s.2.get c.stop <;> simp only [hstart, hstop] at ht ⊢
  · rw [Option.map_eq_none_iff.1 ht]
  · rw [Option.map_eq_none_iff.1 ht]

theorem get?_turn {isStart : Bool} (h : (c.turn isStart k).2 ≠ .dropped .dimensionLimit) (j : DimensionKey) :
    (c.turn isStart k).1.counts.get? j =
      if Keyed.text j = Keyed.text k then
        let n := c.nextCount isStart ((c.counts.get? k).getD 0)
        if n = 0 ∧ c.unseen = .off then none else some n
      else c.counts.get? j := by
  rw [turn] at h ⊢
  dsimp only at h ⊢
  split
  next hidle =>
    -- a stop of a key that is not counted leaves nothing to count
    simp only [Table.contains, Bool.and_eq_true, Bool.not_eq_true', Option.isSome_eq_false_iff,
      Option.isNone_iff_eq_none, beq_iff_eq] at hidle
    obtain ⟨⟨hnone, rfl⟩, hoff⟩ := hidle
    by_cases hj : Keyed.text j = Keyed.text k
    · rw [if_pos hj, Table.get?_congr hj, hnone]
      simp [nextCount, hoff]
    · rw [if_neg hj]
  next hidle =>
    rw [if_neg hidle] at h
    split at h
    next => exact absurd rfl h
    next hroom =>
      rw [if_neg hroom]
      simp only [beq_iff_eq]
      split
      next hn => rw [Table.get?_erase]
      next hn => rw [Table.get?_insert]

theorem turn_unseen (c : Simple) (isStart : Bool) (k : DimensionKey) : (c.turn isStart k).1.unseen = c.unseen := by
  rcases turn_cases c isStart k with h | ⟨_, _, h, -⟩ <;> rw [h]

theorem nextCount_eq (n : Nat) (h : Turn.count c.nested n t < 4294967296) :
    c.nextCount t.isStart n = Turn.count c.nested n t := by
  unfold Turn.count at h ⊢
  rw [nextCount]
  cases hn : c.nested <;> cases hs : t.isStart <;> simp_all

/-- What is counted is what the turns come to, and only zeros that read as unseen are forgotten. -/
structure Recounts (c : Simple) (ts : List Turn) : Prop where
  unseen : c.unseen ≠ .on
  counted : ∀ k n, c.counts.get? k = some n → n = level c.nested ts k ∧ ∃ t ∈ ts, t.IsOf k
  forgotten : ∀ k, c.counts.get? k = none → level c.nested ts k = 0 ∧ ((∃ t ∈ ts, t.IsOf k) → c.unseen = .off)

namespace Recounts

theorem level_eq (h : Recounts c ts) (k : DimensionKey) : (c.counts.get? k).getD 0 = level c.nested ts k := by
  cases hk : c.counts.get? k with
  | none => exact (h.forgotten k hk).1.symm
  | some n => exact (h.counted k n hk).1

theorem signalAt (h : Recounts c ts) (k : DimensionKey) :
    (c.signalAt k).Tells (0 < level c.nested ts k) ((∃ t ∈ ts, t.IsOf k) ∨ c.unseen = .off) := by
  rw [Simple.signalAt]
  cases hk : c.counts.get? k with
  | none =>
      obtain ⟨hzero, hoff⟩ := h.forgotten k hk
      refine ⟨iff_of_false h.unseen (by omega), ?_⟩
      simp only [hzero, Nat.lt_irrefl, not_false_eq_true, true_and]
      exact ⟨.inr, fun ho => ho.elim hoff id⟩
  | some n =>
      obtain ⟨rfl, hof⟩ := h.counted k n hk
      exact Signal.tells_ofBool decide_eq_true_iff fun _ => .inl hof

theorem anyOn_iff (h : Recounts c ts) : c.anyOn = true ↔ ∃ k, c.signalAt k = .on := by
  rw [exists_of_mem_counts]
  refine exists_congr fun k => ?_
  rw [(h.signalAt k).on_iff, ← h.level_eq k]
  cases c.counts.get? k <;> simp

theorem overall (h : Recounts c ts) (hdims : c.dimensions ≠ []) :
    c.overall.Tells (∃ k, c.signalAt k = .on) (ts ≠ [] ∨ c.unseen = .off) := by
  rw [Simple.overall, if_neg (by simpa using hdims)]
  by_cases hon : c.anyOn = true
  · rw [if_pos hon]
    have hsome := h.anyOn_iff.1 hon
    exact ⟨iff_of_true rfl hsome, iff_of_false (by simp) fun hnot => hnot.1 hsome⟩
  rw [if_neg hon]
  have hnone := mt h.anyOn_iff.2 hon
  split
  next hempty =>
    have hforgotten := fun k => h.forgotten k ((Table.isEmpty_iff _).1 hempty k)
    refine ⟨iff_of_false h.unseen hnone, fun hoff => ⟨hnone, .inr hoff⟩, ?_⟩
    rintro ⟨-, hts | hoff⟩
    · obtain ⟨t, ht⟩ := List.exists_mem_of_ne_nil ts hts
      exact (hforgotten t.key).2 ⟨t, ht, rfl⟩
    · exact hoff
  next hfull =>
    refine ⟨iff_of_false (by simp) hnone, iff_of_true rfl ⟨hnone, .inl ?_⟩⟩
    rintro rfl
    refine hfull ((Table.isEmpty_iff _).2 fun k => Option.eq_none_iff_forall_ne_some.2 fun n hk => ?_)
    obtain ⟨-, t, ht, -⟩ := h.counted k n hk
    cases ht

theorem stopEverything (c : Simple) : Recounts c.stopEverything.1 [] where
  unseen := by simp [Simple.stopEverything]
  counted k n hk := by cases hk
  forgotten k _ := ⟨rfl, fun _ => rfl⟩

theorem turn (h : Recounts c ts) (hroom : (c.turn t.isStart t.key).2 ≠ .dropped .dimensionLimit)
    (hword : level c.nested (ts ++ [t]) t.key < 4294967296) :
    Recounts (c.turn t.isStart t.key).1 (ts ++ [t]) := by
  have hself : level c.nested (ts ++ [t]) t.key = Turn.count c.nested (level c.nested ts t.key) t := by
    rw [level_concat, if_pos (show t.IsOf t.key from rfl)]
  have hnext : c.nextCount t.isStart ((c.counts.get? t.key).getD 0) = level c.nested (ts ++ [t]) t.key := by
    rw [h.level_eq, nextCount_eq _ (hself ▸ hword), hself]
  have hnested : (c.turn t.isStart t.key).1.nested = c.nested := by
    rcases turn_cases c t.isStart t.key with hc | ⟨_, _, hc, -⟩ <;> rw [hc]
  have hget := get?_turn hroom
  simp only [hnext] at hget
  have hother : ∀ k, ¬ Keyed.text k = Keyed.text t.key →
      level c.nested (ts ++ [t]) k = level c.nested ts k ∧ ((∃ r ∈ ts ++ [t], r.IsOf k) ↔ ∃ r ∈ ts, r.IsOf k) := by
    intro k hk
    have hnot : ¬ t.IsOf k := fun hof => hk hof.symm
    rw [level_concat, if_neg hnot]
    simp [List.mem_append, or_and_right, exists_or, hnot]
  refine ⟨turn_unseen c _ _ ▸ h.unseen, fun k n hk => ?_, fun k hk => ?_⟩
  · rw [hnested]
    rw [hget] at hk
    split at hk
    next hof =>
      split at hk
      · cases hk
      · cases hk
        exact ⟨(level_congr hof _ _).symm, t, by simp, hof.symm⟩
    next hof =>
      obtain ⟨hlevel, hmem⟩ := hother k hof
      rw [hlevel, hmem]
      exact h.counted k n hk
  · rw [hnested, turn_unseen]
    rw [hget] at hk
    split at hk
    next hof =>
      split at hk
      next hzero => exact ⟨(level_congr hof _ _).trans hzero.1, fun _ => hzero.2⟩
      next => cases hk
    next hof =>
      obtain ⟨hlevel, hmem⟩ := hother k hof
      rw [hlevel, hmem]
      exact h.forgotten k hk

end Recounts

theorem isOff_after (c : Simple) (ss : List Sighting) :
    (c.after ss).unseen = .off ↔ c.unseen = .off ∨ ∃ s ∈ ss, c.stopsAll s = true := by
  induction ss using List.reverseRecOn with
  | nil => simp [after]
  | append_singleton ss s ih =>
      obtain ⟨unseen, counts, hc⟩ := c.after_eq ss
      have hstops : (c.after ss).stopsAll s = c.stopsAll s := by rw [hc]; rfl
      have hsplit : (∃ r ∈ ss ++ [s], c.stopsAll r = true) ↔
          (∃ r ∈ ss, c.stopsAll r = true) ∨ c.stopsAll s = true := by simp [List.mem_append, or_and_right, exists_or]
      rw [after_concat, hsplit, ← or_assoc, ← ih]
      cases hall : c.stopsAll s with
      | true =>
          rw [onEvent_of_stopsAll (hstops.trans hall)]
          simp [Simple.stopEverything]
      | false =>
          simp only [Bool.false_eq_true, or_false]
          cases ht : (c.after ss).turn? s with
          | none => rw [onEvent_of_turn_none (hstops.trans hall) ht]
          | some t => rw [onEvent_of_turn (hstops.trans hall) ht, turn_unseen]

theorem recounts_after (hempty : c.counts = .empty) (hunseen : c.unseen ≠ .on)
    (hroom : .dropped .dimensionLimit ∉ c.effects ss)
    (hwords : ∀ p, p <+: ss → ∀ k, level c.nested (c.history p) k < 4294967296) :
    Recounts (c.after ss) (c.history ss) := by
  induction ss using List.reverseRecOn with
  | nil => exact ⟨hunseen, fun k n hk => by simp [after, hempty, Table.get?_empty] at hk,
      fun k _ => ⟨rfl, fun ⟨_, ht, _⟩ => by cases ht⟩⟩
  | append_singleton ss s ih =>
      rw [effects_concat, List.mem_append, not_or] at hroom
      specialize ih hroom.1 fun p hp => hwords p (hp.trans (List.prefix_append ss [s]))
      obtain ⟨unseen, counts, hc⟩ := c.after_eq ss
      have hstops : (c.after ss).stopsAll s = c.stopsAll s := by rw [hc]; rfl
      have hturn : (c.after ss).turn? s = c.turn? s := by rw [hc]; rfl
      have hnested : (c.after ss).nested = c.nested := by rw [hc]
      have hlast := hwords _ List.prefix_rfl
      rw [history_concat] at hlast ⊢
      rw [after_concat]
      cases hall : c.stopsAll s with
      | true =>
          rw [onEvent_of_stopsAll (hstops.trans hall)]
          exact .stopEverything _
      | false =>
          simp only [hall, Bool.false_eq_true, if_false] at hlast ⊢
          cases ht : c.turn? s with
          | none =>
              rw [onEvent_of_turn_none (hstops.trans hall) (hturn.trans ht)]
              simpa using ih
          | some t =>
              have honEvent := onEvent_of_turn (hstops.trans hall) (hturn.trans ht)
              rw [honEvent, List.mem_singleton] at hroom
              rw [ht, Option.toList_some] at hlast
              rw [honEvent, Option.toList_some]
              exact ih.turn (fun hdrop => hroom.2 hdrop.symm) (hnested ▸ hlast t.key)

theorem get?_ledger (nested : Bool) (ts : List Turn) (k : DimensionKey) :
    (ledger nested ts).get? k = if ∃ t ∈ ts, t.IsOf k then some (level nested ts k) else none := by
  have hfold : ∀ (us : List Turn) (counts : Table DimensionKey Nat),
      (us.foldl (fun counts t => counts.insert t.key (level nested ts t.key)) counts).get? k =
        if ∃ t ∈ us, t.IsOf k then some (level nested ts k) else counts.get? k := by
    intro us counts
    induction us using List.reverseRecOn with
    | nil => simp
    | append_singleton us u ih =>
        rw [List.foldl_concat, Table.get?_insert, ih]
        by_cases hu : u.IsOf k
        · rw [if_pos (Eq.symm hu), if_pos ⟨u, by simp, hu⟩, level_congr hu]
        · rw [if_neg (fun h => hu h.symm)]
          simp [List.mem_append, or_and_right, exists_or, hu]
  exact hfold ts .empty

theorem Recounts.ledger (h : Recounts c ts) (hnested : c.nested = nested) :
    Recounts { c with counts := ledger nested ts } ts where
  unseen := h.unseen
  counted k n hk := by
    subst hnested
    simp only [get?_ledger] at hk
    split at hk
    next hof => cases hk; exact ⟨rfl, hof⟩
    next => cases hk
  forgotten k hk := by
    subst hnested
    simp only [get?_ledger] at hk
    split at hk
    next => cases hk
    next hof => exact ⟨level_of_not_isOf hof _, fun hsome => absurd hsome hof⟩

/-- As long as there is room for keys and no count leaves its word, the signals of a condition are those
of its history, and remain so if keys without a count are remembered. -/
theorem signals_of_history {initial : Definition.Initial} (hempty : c.counts = .empty)
    (hinitial : c.unseen = initial.signal) (ss : List Sighting)
    (hroom : .dropped .dimensionLimit ∉ c.effects ss)
    (hwords : ∀ p, p <+: ss → ∀ k, level c.nested (c.history p) k < 4294967296) :
    let isOff := (∃ s ∈ ss, c.stopsAll s = true) ∨ initial = .off
    let remembering := { c.after ss with counts := ledger c.nested (c.history ss) }
    (∀ k, ((c.after ss).signalAt k).Tells (0 < level c.nested (c.history ss) k)
      ((∃ t ∈ c.history ss, t.IsOf k) ∨ isOff)) ∧
    (c.dimensions = [] → (c.after ss).overall = (c.after ss).signalAt .empty) ∧
    (c.dimensions ≠ [] → (c.after ss).overall.Tells (∃ k, (c.after ss).signalAt k = .on)
      (c.history ss ≠ [] ∨ isOff)) ∧
    (∀ k, remembering.signalAt k = (c.after ss).signalAt k) ∧ remembering.overall = (c.after ss).overall := by
  intro isOff remembering
  have hunseen : c.unseen ≠ .on := by
    rw [hinitial]
    cases initial <;> simp [Definition.Initial.signal]
  have hinitially : c.unseen = .off ↔ initial = .off := by
    rw [hinitial]
    cases initial <;> simp [Definition.Initial.signal]
  have hcounts := recounts_after hempty hunseen hroom hwords
  have hoff : (c.after ss).unseen = .off ↔ isOff := by rw [isOff_after, hinitially, or_comm]
  obtain ⟨unseen, counts, hc⟩ := c.after_eq ss
  have hnested : (c.after ss).nested = c.nested := by rw [hc]
  have hdims : (c.after ss).dimensions = c.dimensions := by rw [hc]
  have hremembering : Recounts remembering (c.history ss) := hcounts.ledger hnested
  have hsignals : ∀ k, remembering.signalAt k = (c.after ss).signalAt k := fun k =>
    (hremembering.signalAt k).eq (hcounts.signalAt k)
  refine ⟨fun k => ?_, fun hnil => ?_, fun hne => ?_, hsignals, ?_⟩
  · rw [← hoff, ← hnested]
    exact hcounts.signalAt k
  · rw [overall, hdims, hnil]
    rfl
  · rw [← hoff]
    exact hcounts.overall (hdims ▸ hne)
  · by_cases hnil : c.dimensions = []
    · have hempty : ∀ d : Simple, d.dimensions = [] → d.overall = d.signalAt .empty := fun d hd => by
        rw [overall, hd]
        rfl
      rw [hempty remembering (hdims.trans hnil), hempty (c.after ss) (hdims.trans hnil), hsignals]
    · have htells := hremembering.overall (hdims ▸ hnil)
      simp only [hsignals] at htells
      exact htells.eq (hcounts.overall (hdims ▸ hnil))

/-- Lights that go on in room 1 twice, off in room 2, all off, and then twice on and once off in room 1. -/
theorem signals_of_history_lights :
    let lights : Simple :=
      { start := 0, stop := 1, stopAll := some 2, nested := true, dimensions := ["room"], maxDimensions := 2
        unseen := .unknown }
    let turn (hits : Hits) (room : Int) : Sighting :=
      ({ atom := 0, time := 0, fields := .ofList [("room", .int room)] }, hits)
    let on := turn [true, false, false]
    let off := turn [false, true, false]
    let ss := [on 1, on 1, off 2, turn [false, false, true] 1, on 1, on 1, off 1]
    .dropped .dimensionLimit ∉ lights.effects ss ∧
      (∀ p, p <+: ss → ∀ k, level true (lights.history p) k < 4294967296) ∧
      (lights.after ss).signalAt ⟨[("room", .int 1)]⟩ = .on ∧
      (lights.after ss).signalAt ⟨[("room", .int 2)]⟩ = .off ∧ (lights.after ss).overall = .on := by
  intro lights turn on off ss
  have hroom : .dropped .dimensionLimit ∉ lights.effects ss := by decide +kernel
  have hwords : ∀ p, p <+: ss → ∀ k, level true (lights.history p) k < 4294967296 := fun p hp k =>
    ((level_le_length true _ k).trans (length_history_le lights p)).trans_lt
      (hp.length_le.trans_lt (by decide))
  have hempty : lights.counts = .empty := rfl
  have hinitial : lights.unseen = Definition.Initial.unknown.signal := rfl
  obtain ⟨hsignals, -, hoverall, -⟩ := signals_of_history hempty hinitial ss hroom hwords
  have hfirst : (lights.after ss).signalAt ⟨[("room", .int 1)]⟩ = .on := (hsignals _).on_iff.2 (by decide +kernel)
  refine ⟨hroom, hwords, hfirst, (hsignals _).off_iff.2 ⟨by decide +kernel, .inr (.inl (by decide +kernel))⟩, ?_⟩
  exact (hoverall (by decide)).on_iff.2 ⟨_, hfirst⟩

end Condition.Simple

end EventMetrics
