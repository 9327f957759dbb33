import EventMetrics.Proofs.Engine.Parts
import EventMetrics.Proofs.Metric.Room

namespace EventMetrics

theorem Reading.sample_eq_error {r : Reading} {ev : Event} {reason : DropReason} (h : r.sample ev = .error reason) :
    reason = .missingField ∨ reason = .unparseableValue := by
  cases r with
  | count => cases h
  | field path aggregation =>
      simp only [sample] at h
      split at h
      · cases h
        exact .inl rfl
      · split at h <;> cases h
        exact .inr rfl

namespace Metric

variable {m n : Metric} {cs : Conditions} {ev : Event} {hits : Hits} {u : Condition.Update} {t : Timing}
  {key : DimensionKey} {reason : DropReason}

theorem measure_plan (m : Metric) (cs : Conditions) (ev : Event) (hits : Hits) (u : Condition.Update) :
    (m.measure cs ev hits u).1.state.plan = m.plan := (congrArg Metric.plan (measure_still m cs ev hits u) :)

theorem prepareIntervals_plan (m : Metric) (t : Timing) (cs : Conditions) (ev : Event) (hits : Hits)
    (u : Condition.Update) : (m.prepareIntervals t cs ev hits u).plan = m.plan :=
  (congrArg Metric.plan (prepareIntervals_still m cs ev hits u t) :)

theorem prepare_room (m : Metric) (t : Timing) (cs : Conditions) (ev : Event) (hits : Hits) (u : Condition.Update) :
    (t.stopAll.any hits.get = false ∧ Intervals.Narrows m.intervals (m.prepareIntervals t cs ev hits u).intervals) ∨
    (t.stopAll.any hits.get = true ∧ (m.prepareIntervals t cs ev hits u).intervals.opened.keys = ∅ ∧
      (m.prepareIntervals t cs ev hits u).intervals.released.card ≤
        m.intervals.released.card + m.intervals.opened.keys.card) := by
  have hgates : Intervals.Narrows m.intervals
      (if (m.plan.gate.any fun g => u.isChanged g.condition) then m.regate t cs ev.time else m).intervals := by
    split
    · exact m.intervals.narrows_regate t.aggregation ev.time _
    · exact .refl _
  unfold prepareIntervals
  dsimp only
  split
  next hall =>
    obtain ⟨hnone, hcard⟩ := Intervals.stopAll_room
      (if (m.plan.gate.any fun g => u.isChanged g.condition) then m.regate t cs ev.time else m).intervals
      t.aggregation ev.time
    refine .inr ⟨hall, hnone, hcard.trans ?_⟩
    rw [hgates.opened]
    exact Nat.add_le_add_right (Finset.card_le_card hgates.released) _
  next hall => exact .inl ⟨by simpa using hall, hgates⟩

theorem turnInterval_of_not_stop (m : Metric) (cs : Conditions) (ev : Event) (hstop : hits.get t.stop = false) :
    (∃ o, m.turnInterval t cs ev hits = (m, o)) ∨
    ∃ key n, m.startInterval t cs ev key = .ok n ∧ m.turnInterval t cs ev hits = (n, .accepted) := by
  unfold turnInterval
  rw [hstop]
  cases hits.get t.start with
  | false => exact .inl ⟨.ignored, rfl⟩
  | true =>
      cases DimensionKey.extract? ev m.plan.dimensions with
      | none => exact .inl ⟨_, rfl⟩
      | some key =>
          cases hn : m.startInterval t cs ev key with
          | error r => exact .inl ⟨.dropped r, by simp [hn]⟩
          | ok n => exact .inr ⟨key, n, hn, by simp [hn]⟩

theorem turn_room (m : Metric) (t : Timing) (cs : Conditions) (ev : Event) (hits : Hits)
    (hroom : m.intervals.opened.keys.card ≤ m.plan.maxDimensions) :
    (m.turnInterval t cs ev hits).1.intervals.opened.keys.card ≤ m.plan.maxDimensions ∧
      (m.turnInterval t cs ev hits).1.intervals.released.card ≤
        m.intervals.released.card + (if hits.get t.stop then 1 else 0) ∧
      (m.intervals.opened.keys = ∅ →
        (m.turnInterval t cs ev hits).1.intervals.released.card ≤ m.intervals.released.card) := by
  have hstart : ∀ key n, m.startInterval t cs ev key = .ok n → n.intervals.opened.keys.card ≤ m.plan.maxDimensions ∧
      n.intervals.released.card ≤ m.intervals.released.card := by
    intro key n hn
    obtain ⟨link, is, -, his, rfl⟩ := (startInterval_eq_ok cs ev).1 hn
    exact (Intervals.start_room his hroom).imp_right Finset.card_le_card
  cases hstop : hits.get t.stop with
  | false =>
      rcases turnInterval_of_not_stop m cs ev hstop with ⟨o, h⟩ | ⟨key, n, hn, h⟩ <;> rw [h]
      · exact ⟨hroom, Nat.le_refl _, fun _ => Nat.le_refl _⟩
      · obtain ⟨hopened, hreleased⟩ := hstart key n hn
        exact ⟨hopened, hreleased, fun _ => hreleased⟩
  | true =>
      rcases m.turnInterval_cases cs ev hits t with ⟨o, -, h⟩ | ⟨key, n, -, hnot, -, -, -⟩ | ⟨key, h⟩
      · rw [h]
        exact ⟨hroom, Nat.le_succ _, fun _ => Nat.le_refl _⟩
      · rw [hstop] at hnot
        cases hnot
      · obtain ⟨hopened, hreleased⟩ := m.intervals.stop_room t.aggregation t.nested ev.time key
        rw [h]
        refine ⟨(Finset.card_le_card hopened).trans hroom, hreleased, fun hnone => ?_⟩
        dsimp only
        rw [Intervals.stop_of_absent hnone]

theorem measure_room (m : Metric) (cs : Conditions) (ev : Event) (hits : Hits) (u : Condition.Update)
    (hroom : m.tracked.card ≤ m.plan.maxDimensions) :
    (m.measure cs ev hits u).1.state.tracked.card ≤ m.plan.maxDimensions ∧
      (m.measure cs ev hits u).1.state.released.card ≤
        m.released.card + m.plan.rule.releases m.plan.maxDimensions hits := by
  have hplan := m.measure_plan cs ev hits u
  cases hrule : m.plan.rule with
  | sampled what reading =>
      have hnone : ∀ n : Metric, n.plan = m.plan → n.released = ∅ := fun n hn =>
        released_of_not_timed (by simp [hn, hrule])
      rw [hnone _ hplan, Finset.card_empty]
      refine ⟨?_, Nat.zero_le _⟩
      rcases measure_sampled cs ev hits u hrule with ⟨k, o, h, -⟩ | ⟨key, q, ss, -, -, hadd, h⟩
      · rw [h]
        exact hroom
      · rw [tracked_sampled hrule] at hroom
        rw [tracked_sampled (hplan ▸ hrule), h]
        exact Accumulators.add_room hadd hroom
  | timed t =>
      rw [tracked_timed hrule] at hroom
      rw [tracked_timed (hplan ▸ hrule), released_timed (hplan ▸ hrule), released_timed hrule,
        measure_timed cs ev hits u hrule, MeasureRule.releases]
      have hturn := turn_room (m.prepareIntervals t cs ev hits u) t cs ev hits
      rw [prepareIntervals_plan] at hturn
      rcases prepare_room m t cs ev hits u with ⟨hall, hsame⟩ | ⟨hall, hnone, hreleased⟩
      · rw [hsame.opened] at hturn
        obtain ⟨hopened, hturned, -⟩ := hturn hroom
        rw [hall]
        exact ⟨hopened, hturned.trans (Nat.add_le_add_right (Finset.card_le_card hsame.released) _)⟩
      · obtain ⟨hopened, -, hkept⟩ := hturn (by simp [hnone])
        rw [hall]
        exact ⟨hopened, (hkept hnone).trans (hreleased.trans (Nat.add_le_add_left hroom _))⟩
  | passed what =>
      have hnone : (m.measure cs ev hits u).1.state.tracked = ∅ := by rw [tracked, hplan, hrule]
      rw [hnone, released_of_not_timed (by simp [hplan, hrule])]
      exact ⟨Nat.zero_le _, Nat.zero_le _⟩

theorem kept_room : Kept fun m => m.tracked.card ≤ m.plan.maxDimensions where
  start cs time h := (Narrows.start _ cs time).room h
  absorb {m} cs cs' ev hits u h := by
    have hwatched : Narrows m ((m.advance cs ev.time false).state.watch ev.time hits) :=
      (narrows_advance m cs ev.time false).trans (.of_eq rfl rfl rfl)
    have hmet := (hwatched.trans (narrows_meet _ cs' ev.time)).room h
    have hmeasured := (measure_room _ cs' ev hits u hmet).1
    rw [← measure_plan _ cs' ev hits u] at hmeasured
    rw [absorb_watch, onEvent_eq]
    exact (((Narrows.note _ _).trans (narrows_advance _ cs' ev.time true)).trans (.flushPending _)).room hmeasured
  advanceTo cs now h := ((narrows_advance _ cs now false).trans (.flushPending _)).room h
  shutdown cs now h := (((narrows_advance _ cs now false).trans (narrows_closeAt _ now)).trans (.flushPending _)).room h

theorem judge_eq_drop (h : m.judge cs ev = .drop reason) : reason = .missingField := by
  rw [judge] at h
  split at h
  next => cases h
  next =>
    split at h
    next =>
      cases h
      rfl
    next =>
      split at h
      next hsignal =>
        cases h
        rw [sampleSignal] at hsignal
        split at hsignal
        · cases hsignal
        · split at hsignal
          · split at hsignal <;> cases hsignal
            rfl
          · cases hsignal
      next => cases h
      next => split at h <;> (try split at h) <;> cases h

theorem sampleEvent_refused {accept : DimensionKey → Except DropReason (Emitting Metric)}
    (h : (m.sampleEvent cs ev accept).2 = .dropped .dimensionLimit) :
    ∃ key, m.judge cs ev = .take key ∧ accept key = .error .dimensionLimit := by
  rw [sampleEvent] at h
  split at h
  next => cases h
  next hj =>
    cases h
    cases judge_eq_drop hj
  next => cases h
  next key hj =>
    split at h
    next => cases h
    next r hr =>
      cases h
      exact ⟨key, hj, hr⟩

theorem startInterval_refused (h : m.startInterval t cs ev key = .error .dimensionLimit) :
    key.canonical ∉ m.intervals.opened.keys ∧ m.plan.maxDimensions ≤ m.intervals.opened.keys.card := by
  rcases startInterval_eq_error h with h | ⟨link, hs⟩
  · cases h
  · exact Intervals.start_refused hs

theorem turnInterval_refused (h : (m.turnInterval t cs ev hits).2 = .dropped .dimensionLimit) :
    ∃ key, DimensionKey.extract? ev m.plan.dimensions = some key ∧
      m.startInterval t cs ev key = .error .dimensionLimit := by
  rcases turnInterval_dropped h with h | h | hrefused
  · cases h
  · cases h
  · exact hrefused

theorem measure_refused (h : (m.measure cs ev hits u).2 = .dropped .dimensionLimit) :
    ∃ key, DimensionKey.extract? ev m.plan.dimensions = some key ∧
      ∃ ks ⊆ m.tracked, key.canonical ∉ ks ∧ m.plan.maxDimensions ≤ ks.card := by
  cases hrule : m.plan.rule with
  | sampled what reading =>
      simp only [measure, hrule] at h
      split at h
      next =>
        obtain ⟨key, hj, hr⟩ := sampleEvent_refused h
        refine ⟨key, (Sampled.judge_eq_take hj).2, m.samples.keys, (tracked_sampled hrule).symm.subset, ?_⟩
        cases hq : reading.sample ev with
        | error r =>
            rcases Reading.sample_eq_error hq with rfl | rfl <;>
              simp [takeSample, hq, bind, Except.bind, Except.map] at hr
        | ok q =>
            cases hadd : m.samples.add m.plan.maxDimensions key q with
            | error r => exact Accumulators.add_refused hadd
            | ok ss => simp [takeSample, hq, hadd, bind, Except.bind, Except.map, pure, Except.pure] at hr
      next => cases h
  | passed what =>
      simp only [measure, hrule] at h
      split at h
      next =>
        obtain ⟨key, -, hr⟩ := sampleEvent_refused h
        cases hr
      next => cases h
  | timed t =>
      rw [measure_timed cs ev hits u hrule] at h
      obtain ⟨key, hkey, hr⟩ := turnInterval_refused h
      obtain ⟨habsent, hfull⟩ := startInterval_refused hr
      rw [prepareIntervals_plan] at hkey hfull
      refine ⟨key, hkey, _, ?_, habsent, hfull⟩
      rw [tracked_timed hrule]
      rcases prepare_room m t cs ev hits u with ⟨-, hsame⟩ | ⟨-, hnone, -⟩
      · exact hsame.opened.subset
      · exact hnone ▸ Finset.empty_subset _

theorem visit_refused (hroom : m.tracked.card ≤ m.plan.maxDimensions)
    (h : (m.visit cs ev hits).2 = .dropped .dimensionLimit) : ∃ key,
      DimensionKey.extract? ev m.plan.dimensions = some key ∧ key.canonical ∉ m.tracked ∧
        m.tracked.card = m.plan.maxDimensions := by
  have hwatched : Narrows m ((m.advance cs ev.time false).state.watch ev.time hits) :=
    (narrows_advance m cs ev.time false).trans (.of_eq rfl rfl rfl)
  have hmet := hwatched.trans (narrows_meet _ (cs.onEvent ev hits).1 ev.time)
  obtain ⟨key, hkey, ks, hks, habsent, hfull⟩ := measure_refused (m := ((m.advance cs ev.time false).state.watch ev.time
    hits).meet (cs.onEvent ev hits).1 ev.time) (u := (cs.onEvent ev hits).2) h
  rw [hmet.plan] at hkey hfull
  have hall : ks = m.tracked :=
    Finset.eq_of_subset_of_card_le (hks.trans hmet.tracked) (hroom.trans hfull)
  subst hall
  exact ⟨key, hkey, habsent, Nat.le_antisymm hroom hfull⟩

end Metric

end EventMetrics
