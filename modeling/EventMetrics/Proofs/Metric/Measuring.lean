import EventMetrics.Proofs.Metric.Frame

namespace EventMetrics.Metric

variable (m : Metric) (cs : Conditions) (e : Event) (hits : Hits) (u : Condition.Update)

def still : Metric :=
  { m with
    unknownDrops := 0, samples := .empty, intervals := {}
    turnover := { m.turnover with events := 0 } }

theorem startInterval_eq_ok {m n : Metric} {t : Timing} {key : DimensionKey} :
    m.startInterval t cs e key = .ok n ↔ ∃ link is, m.intervalLink e = .ok link ∧
      m.intervals.start t.nested m.plan.maxDimensions e.time (m.gateOpen cs link) key link = .ok is ∧
      n = { m with intervals := is } := by
  unfold startInterval
  cases hl : m.intervalLink e with
  | error r => simp [bind, Except.bind]
  | ok link =>
      cases hs : m.intervals.start t.nested m.plan.maxDimensions e.time (m.gateOpen cs link) key link with
      | error r => simp [bind, Except.bind, hs]
      | ok is => simp [bind, Except.bind, pure, Except.pure, hs, eq_comm]

variable {m cs e} in
theorem startInterval_eq_error {t : Timing} {key : DimensionKey} {reason : DropReason}
    (h : m.startInterval t cs e key = .error reason) : reason = .missingField ∨ ∃ link,
      m.intervals.start t.nested m.plan.maxDimensions e.time (m.gateOpen cs link) key link = .error reason := by
  rw [startInterval] at h
  cases hl : m.intervalLink e with
  | error r =>
      simp only [hl, bind, Except.bind, Except.error.injEq] at h
      subst h
      rw [intervalLink] at hl
      split at hl
      · split at hl
        · split at hl <;> cases hl
          exact .inl rfl
        · cases hl
      · cases hl
  | ok link =>
      cases hs : m.intervals.start t.nested m.plan.maxDimensions e.time (m.gateOpen cs link) key link with
      | error r =>
          simp only [hl, hs, bind, Except.bind, Except.error.injEq] at h
          exact .inr ⟨link, h ▸ hs⟩
      | ok is => simp [hl, hs, bind, Except.bind, pure, Except.pure] at h

theorem takeSample_eq_ok {m n : Metric} {reading : Reading} {key : DimensionKey} :
    m.takeSample reading key e = .ok n ↔ ∃ q ss, reading.sample e = .ok q ∧
      m.samples.add m.plan.maxDimensions key q = .ok ss ∧ n = { m with samples := ss } := by
  rw [takeSample]
  cases hq : reading.sample e with
  | error r => simp [bind, Except.bind]
  | ok q =>
      cases hs : m.samples.add m.plan.maxDimensions key q with
      | error r => simp [bind, Except.bind, hs]
      | ok ss => simp [bind, Except.bind, pure, Except.pure, hs, eq_comm]

theorem prepareIntervals_eq (t : Timing) :
    ∃ is, m.prepareIntervals t cs e hits u = { m with intervals := is } := by
  unfold prepareIntervals
  dsimp only
  split <;> split <;> exact ⟨_, rfl⟩

theorem prepareIntervals_still (t : Timing) :
    (m.prepareIntervals t cs e hits u).still = m.still := by
  obtain ⟨is, h⟩ := prepareIntervals_eq m cs e hits u t
  rw [h]
  rfl

theorem turnInterval_cases (t : Timing) :
    (∃ o, o ≠ .accepted ∧ m.turnInterval t cs e hits = (m, o)) ∨
    (∃ key n, hits.get t.start = true ∧ hits.get t.stop = false ∧
      DimensionKey.extract? e m.plan.dimensions = some key ∧ m.startInterval t cs e key = .ok n ∧
      m.turnInterval t cs e hits = (n, .accepted)) ∨
    ∃ key, m.turnInterval t cs e hits =
      ({ m with intervals := m.intervals.stop t.aggregation t.nested e.time key }, .accepted) := by
  unfold turnInterval
  cases hstart : hits.get t.start <;> cases hstop : hits.get t.stop
  · exact .inl ⟨_, by simp, rfl⟩
  · cases DimensionKey.extract? e m.plan.dimensions with
    | none => exact .inl ⟨_, by simp, rfl⟩
    | some key => exact .inr (.inr ⟨key, rfl⟩)
  · cases hkey : DimensionKey.extract? e m.plan.dimensions with
    | none => exact .inl ⟨_, by simp, rfl⟩
    | some key =>
        cases hn : m.startInterval t cs e key with
        | error r => exact .inl ⟨.dropped r, by simp, by simp [hn]⟩
        | ok n => exact .inr (.inl ⟨key, n, rfl, rfl, rfl, hn, by simp [hn]⟩)
  · exact .inl ⟨_, by simp, rfl⟩

variable {m cs e hits} in
theorem turnInterval_dropped {t : Timing} {reason : DropReason}
    (h : (m.turnInterval t cs e hits).2 = .dropped reason) : reason = .ambiguousCondition ∨ reason = .missingField ∨
      ∃ key, DimensionKey.extract? e m.plan.dimensions = some key ∧ m.startInterval t cs e key = .error reason := by
  unfold turnInterval at h
  split at h
  · cases h
    exact .inl rfl
  · cases h
  · split at h
    · cases h
      exact .inr (.inl rfl)
    next key hkey =>
      split at h
      next =>
        split at h
        · cases h
        next r hr =>
          cases h
          exact .inr (.inr ⟨key, hkey, hr⟩)
      next => cases h

theorem turnInterval_eq (t : Timing) : ∃ is, (m.turnInterval t cs e hits).1 = { m with intervals := is } := by
  rcases turnInterval_cases m cs e hits t with ⟨o, -, h⟩ | ⟨key, n, -, -, -, hn, h⟩ | ⟨key, h⟩ <;> rw [h]
  · exact ⟨_, rfl⟩
  · obtain ⟨link, is, -, -, rfl⟩ := (startInterval_eq_ok cs e).1 hn
    exact ⟨is, rfl⟩
  · exact ⟨_, rfl⟩

theorem turnInterval_still (t : Timing) : (m.turnInterval t cs e hits).1.still = m.still := by
  obtain ⟨is, h⟩ := turnInterval_eq m cs e hits t
  rw [h]
  rfl

theorem prepareIntervals_samples (t : Timing) :
    (m.prepareIntervals t cs e hits u).samples = m.samples := by
  obtain ⟨is, h⟩ := prepareIntervals_eq m cs e hits u t
  rw [h]

theorem turnInterval_samples (t : Timing) : (m.turnInterval t cs e hits).1.samples = m.samples := by
  obtain ⟨is, h⟩ := turnInterval_eq m cs e hits t
  rw [h]

theorem sampleEvent_cases (accept : DimensionKey → Except DropReason (Emitting Metric)) :
    (∃ n outcome, m.sampleEvent cs e accept = (⟨{ m with unknownDrops := n }, []⟩, outcome) ∧
      outcome ≠ .accepted) ∨
    ∃ key r, m.judge cs e = .take key ∧ accept key = .ok r ∧
      m.sampleEvent cs e accept = (r, .accepted) := by
  rw [sampleEvent]
  split
  · exact .inl ⟨m.unknownDrops, _, rfl, by simp⟩
  · exact .inl ⟨m.unknownDrops, _, rfl, by simp⟩
  · exact .inl ⟨m.unknownDrops + 1, _, rfl, by simp⟩
  next key hj =>
    split
    next r hr => exact .inr ⟨key, r, hj, hr, rfl⟩
    next => exact .inl ⟨m.unknownDrops, _, rfl, by simp⟩

variable {m}

theorem measure_sampled {what : Nat} {reading : Reading} (hrule : m.plan.rule = .sampled what reading) :
    (∃ n outcome, m.measure cs e hits u = (⟨{ m with unknownDrops := n }, []⟩, outcome) ∧
      outcome ≠ .accepted) ∨
    ∃ key q ss, m.judge cs e = .take key ∧ reading.sample e = .ok q ∧
      m.samples.add m.plan.maxDimensions key q = .ok ss ∧
      m.measure cs e hits u = (⟨{ m with samples := ss }, []⟩, .accepted) := by
  simp only [measure, hrule]
  split
  next =>
    rcases m.sampleEvent_cases cs e fun key => (m.takeSample reading key e).map (⟨·, []⟩) with
      h | ⟨key, r, hj, hr, h⟩
    · exact .inl h
    · cases ht : m.takeSample reading key e with
      | error d => simp [ht, Except.map] at hr
      | ok n =>
          obtain ⟨q, ss, hq, hs, rfl⟩ := (takeSample_eq_ok e).1 ht
          simp only [ht, Except.map, Except.ok.injEq] at hr
          subst hr
          exact .inr ⟨key, q, ss, hj, hq, hs, h⟩
  next => exact .inl ⟨m.unknownDrops, .ignored, rfl, by simp⟩

theorem measure_passed {what : Nat} (hrule : m.plan.rule = .passed what) :
    (∃ n outcome, m.measure cs e hits u = (⟨{ m with unknownDrops := n }, []⟩, outcome) ∧
      outcome ≠ .accepted) ∨
    ∃ key, m.judge cs e = .take key ∧ m.measure cs e hits u = (m.passOn key e, .accepted) := by
  simp only [measure, hrule]
  split
  next =>
    rcases m.sampleEvent_cases cs e fun key => .ok (m.passOn key e) with h | ⟨key, r, hj, hr, h⟩
    · exact .inl h
    · cases hr
      exact .inr ⟨key, hj, h⟩
  next => exact .inl ⟨m.unknownDrops, .ignored, rfl, by simp⟩

theorem measure_timed {t : Timing} (hrule : m.plan.rule = .timed t) : m.measure cs e hits u =
    (⟨((m.prepareIntervals t cs e hits u).turnInterval t cs e hits).1, []⟩,
      ((m.prepareIntervals t cs e hits u).turnInterval t cs e hits).2) := by
  simp only [measure, hrule]

variable (m) in
theorem measure_still : (m.measure cs e hits u).1.state.still = m.still := by
  cases hrule : m.plan.rule with
  | sampled what reading =>
      rcases measure_sampled cs e hits u hrule with
        ⟨n, outcome, h, -⟩ | ⟨key, q, ss, -, -, -, h⟩
      · rw [h]
        rfl
      · rw [h]
        rfl
  | passed what =>
      rcases measure_passed cs e hits u hrule with
        ⟨n, outcome, h, -⟩ | ⟨key, -, h⟩
      · rw [h]
        rfl
      · rw [h]
        rfl
  | timed t =>
      rw [measure_timed cs e hits u hrule]
      exact (turnInterval_still _ cs e hits t).trans (prepareIntervals_still m cs e hits u t)

variable {cs e hits u} in
theorem measure_records {x : Record} (hx : x ∈ (m.measure cs e hits u).1.records) :
    ∃ key, x = .event ⟨m.plan.id, key, e.atom, e.time, e.fields⟩ := by
  cases hrule : m.plan.rule with
  | sampled what reading =>
      rcases measure_sampled cs e hits u hrule with
        ⟨n, outcome, h, -⟩ | ⟨key, q, ss, -, -, -, h⟩ <;> simp [h] at hx
  | passed what =>
      rcases measure_passed cs e hits u hrule with
        ⟨n, outcome, h, -⟩ | ⟨key, -, h⟩
      · simp [h] at hx
      · exact ⟨key, by simpa [h, passOn] using hx⟩
  | timed t => simp [measure_timed _ _ _ _ hrule] at hx

variable {cs e hits u} in
theorem active_of_measure_records {x : Record} (hx : x ∈ (m.measure cs e hits u).1.records) : m.active = true := by
  cases hrule : m.plan.rule with
  | sampled what reading =>
      rcases measure_sampled cs e hits u hrule with
        ⟨n, outcome, h, -⟩ | ⟨key, q, ss, -, -, -, h⟩ <;> simp [h] at hx
  | passed what =>
      rcases measure_passed cs e hits u hrule with
        ⟨n, outcome, h, -⟩ | ⟨key, hj, h⟩
      · simp [h] at hx
      · cases ha : m.active with
        | true => rfl
        | false => simp [judge, ha] at hj
  | timed t => simp [measure_timed _ _ _ _ hrule] at hx

variable {cs e hits u} in
theorem measure_records_of_isBucketed (hb : m.plan.isBucketed = true) : (m.measure cs e hits u).1.records = [] := by
  cases hrule : m.plan.rule with
  | sampled what reading =>
      rcases measure_sampled cs e hits u hrule with ⟨n, outcome, h, -⟩ | ⟨key, q, ss, -, -, -, h⟩ <;> rw [h]
  | timed t => rw [measure_timed cs e hits u hrule]
  | passed what => simp [MetricPlan.isBucketed, hrule] at hb

variable (m) in
theorem absorb_windows : (m.absorb cs e hits u).1.state.windows = m.windows.onEvent e.time hits := by
  have hnote : ∀ (n : Metric) (o : Outcome), (n.note o).windows = n.windows := fun n o => by cases o <;> rfl
  have hstill := measure_still
    (({ m with windows := m.windows.onEvent e.time hits }.rollTo cs e.time).state.followWindows cs e.time) cs e hits u
  have hmeasured := (congrArg Metric.windows hstill :)
  simp only [absorb, onEvent, Emitting.andThen_state, flushPending_windows, advance_windows, hnote]
  refine hmeasured.trans ?_
  exact (followWindows_windows _ cs e.time).trans (rollTo_windows _ cs e.time)

end EventMetrics.Metric
