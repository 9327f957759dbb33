import EventMetrics.Proofs.Metric.Admitting
import EventMetrics.Proofs.Metric.Works

namespace EventMetrics

open DimensionKey (extract? linked?)

def MeasureRule.what? : MeasureRule → Option Nat
  | .sampled what _ | .passed what => some what
  | .timed _ => none

def Value.IsNumeric : Value → Prop
  | .int _ | .real _ | .ordinal _ => True
  | .text _ => False

def MeasureRule.Reads (r : MeasureRule) (ev : Event) : Prop :=
  match r with
  | .sampled _ (.field path _) => ∃ v, ev.field? path = some v ∧ v.IsNumeric
  | _ => True

namespace MetricPlan

/-- The event has all fields of the dimensions and of the links. -/
structure Complete (p : MetricPlan) (ev : Event) : Prop where
  dimensions : ∀ f ∈ p.dimensions, ev.field? f ≠ none
  links : ∀ g ∈ p.gate, ∀ l ∈ g.links, ev.field? l.1 ≠ none

/-- What the condition says of the event: on the slice to which it is linked, or overall. -/
def signal (p : MetricPlan) (cs : Conditions) (ev : Event) : Signal :=
  p.gate.elim .on fun g => cs.query g.condition (if g.isLinked then linked? ev g.links else none)

end MetricPlan

/-- The key of the event is held, or there is room for one more. -/
def Metric.HasRoom (m : Metric) (ev : Event) : Prop :=
  m.plan.isBucketed = true → ∃ key, extract? ev m.plan.dimensions = some key ∧
    (m.samples.get? key ≠ none ∨ m.samples.size < m.plan.maxDimensions)

theorem Reading.sample_isOk {what : Nat} {r : Reading} {ev : Event} :
    (∃ q, r.sample ev = .ok q) ↔ (MeasureRule.sampled what r).Reads ev := by
  cases r with
  | count => simp [sample, MeasureRule.Reads]
  | field path aggregation =>
      rw [sample, MeasureRule.Reads]
      cases ev.field? path with
      | none => simp
      | some v => cases v <;> simp [Quantity.ofValue?, Value.IsNumeric]

theorem Accumulators.add_isOk {as : Accumulators} {limit : Nat} {key : DimensionKey} {q : Quantity} :
    (∃ ss, as.add limit key q = .ok ss) ↔ as.get? key ≠ none ∨ as.size < limit := by
  simp only [add_eq_ok, exists_and_left, exists_eq, and_true]

namespace DimensionKey

variable {ev : Event} {links : List (String × String)} {fields : List String}

theorem linked?_eq_none : linked? ev links = none ↔ ∃ l ∈ links, ev.field? l.1 = none := by
  rw [linked?, Option.map_eq_none_iff]
  induction links with
  | nil => simp
  | cons l links ih =>
      rw [List.mapM_cons]
      cases hl : ev.field? l.1 with
      | none => simp [hl]
      | some v =>
          simp only [List.mem_cons, exists_eq_or_imp, hl, reduceCtorEq, false_or, ← ih]
          cases links.mapM fun l => (ev.field? l.1).map (l.2, ·) <;> simp

theorem extract?_eq_none : extract? ev fields = none ↔ ∃ f ∈ fields, ev.field? f = none := by
  simp [extract?, linked?_eq_none]

end DimensionKey

namespace Metric

variable {m : Metric} {cs : Conditions} {ev : Event} {hits : Hits} {u : Condition.Update} {what : Nat}

theorem judge_of_incomplete (ha : m.active = true) (h : ¬ m.plan.Complete ev) :
    m.judge cs ev = .drop .missingField := by
  rw [judge, ha]
  cases hkey : extract? ev m.plan.dimensions with
  | none => rfl
  | some key =>
      have hfields : ∀ f ∈ m.plan.dimensions, ev.field? f ≠ none := fun f hf hnone => by
        rw [DimensionKey.extract?_eq_none.2 ⟨f, hf, hnone⟩] at hkey
        cases hkey
      have hlinks : ∃ g, m.plan.gate = some g ∧ ∃ l ∈ g.links, ev.field? l.1 = none := by
        by_contra hnot
        exact h ⟨hfields, fun g hg l hl hnone => hnot ⟨g, hg, l, hl, hnone⟩⟩
      obtain ⟨g, hg, l, hl, hnone⟩ := hlinks
      have hlinked : g.isLinked = true := by
        cases hls : g.links with
        | nil => simp [hls] at hl
        | cons => simp [Gate.isLinked, hls]
      have hsignal : m.sampleSignal cs ev = .error .missingField := by
        simp only [sampleSignal, hg, hlinked, if_true, DimensionKey.linked?_eq_none.2 ⟨l, hl, hnone⟩]
      simp only [Bool.not_true, Bool.false_eq_true, if_false, hsignal]

theorem sampleSignal_of_complete (h : m.plan.Complete ev) : m.sampleSignal cs ev = .ok (m.plan.signal cs ev) := by
  cases hg : m.plan.gate with
  | none => simp [sampleSignal, MetricPlan.signal, hg]
  | some g =>
      cases hlinked : g.isLinked with
      | false => simp [sampleSignal, MetricPlan.signal, hg, hlinked]
      | true =>
          cases hkey : linked? ev g.links with
          | none =>
              obtain ⟨l, hl, hnone⟩ := DimensionKey.linked?_eq_none.1 hkey
              exact absurd hnone (h.links g hg l hl)
          | some key => simp [sampleSignal, MetricPlan.signal, hg, hlinked, hkey]

theorem judge_of_complete (cs : Conditions) (ha : m.active = true) (h : m.plan.Complete ev) :
    ∃ key, extract? ev m.plan.dimensions = some key ∧ m.judge cs ev =
      if m.plan.signal cs ev = .unknown ∨ m.windowUnknown = true then .unknown
      else if m.plan.signal cs ev = .on then .take key else .ignore := by
  cases hkey : extract? ev m.plan.dimensions with
  | none =>
      obtain ⟨f, hf, hnone⟩ := DimensionKey.extract?_eq_none.1 hkey
      exact absurd hnone (h.dimensions f hf)
  | some key =>
      refine ⟨key, rfl, ?_⟩
      rw [judge, ha, hkey, sampleSignal_of_complete h]
      cases m.plan.signal cs ev <;> cases m.windowUnknown <;> rfl

/-- What can become of a sample: the metric and its records, and the outcome. -/
inductive Fate (m : Metric) (cs : Conditions) (ev : Event) : Emitting Metric × Outcome → Prop
  | inactive : m.active = false → Fate m cs ev (⟨m, []⟩, .ignored)
  | incomplete : m.active = true → ¬ m.plan.Complete ev → Fate m cs ev (⟨m, []⟩, .dropped .missingField)
  | unknown : m.active = true → m.plan.Complete ev → m.plan.signal cs ev = .unknown ∨ m.windowUnknown = true →
      Fate m cs ev (⟨{ m with unknownDrops := m.unknownDrops + 1 }, []⟩, .dropped .conditionUnknown)
  | excluded : m.active = true → m.plan.Complete ev → m.plan.signal cs ev = .off → m.windowUnknown = false →
      Fate m cs ev (⟨m, []⟩, .ignored)
  | taken (r : Emitting Metric) : m.active = true → m.plan.Complete ev → m.plan.signal cs ev = .on →
      m.windowUnknown = false → m.plan.rule.Reads ev → m.HasRoom ev →
      r.state.unknownDrops = m.unknownDrops → Fate m cs ev (r, .accepted)
  | refused (reason : DropReason) : m.active = true → m.plan.Complete ev → m.plan.signal cs ev = .on →
      m.windowUnknown = false → ¬ (m.plan.rule.Reads ev ∧ m.HasRoom ev) → reason ≠ .conditionUnknown →
      Fate m cs ev (⟨m, []⟩, .dropped reason)

structure Takes (m : Metric) (ev : Event) (accept : DimensionKey → Except DropReason (Emitting Metric)) : Prop where
  ok {key : DimensionKey} {r : Emitting Metric} : extract? ev m.plan.dimensions = some key → accept key = .ok r →
    m.plan.rule.Reads ev ∧ m.HasRoom ev ∧ r.state.unknownDrops = m.unknownDrops
  error {key : DimensionKey} {reason : DropReason} : extract? ev m.plan.dimensions = some key →
    accept key = .error reason → ¬ (m.plan.rule.Reads ev ∧ m.HasRoom ev) ∧ reason ≠ .conditionUnknown

theorem fate_sampleEvent {accept : DimensionKey → Except DropReason (Emitting Metric)} (h : m.Takes ev accept) :
    Fate m cs ev (m.sampleEvent cs ev accept) := by
  rw [sampleEvent]
  rcases Bool.eq_false_or_eq_true m.active with ha | ha
  · by_cases hc : m.plan.Complete ev
    · obtain ⟨key, hkey, hj⟩ := judge_of_complete cs ha hc
      rw [hj]
      by_cases hunknown : m.plan.signal cs ev = .unknown ∨ m.windowUnknown = true
      · rw [if_pos hunknown]
        exact .unknown ha hc hunknown
      · rw [if_neg hunknown]
        rw [not_or, Bool.not_eq_true] at hunknown
        by_cases hon : m.plan.signal cs ev = .on
        · rw [if_pos hon]
          dsimp only
          cases haccept : accept key with
          | ok r =>
              obtain ⟨hreads, hroom, hdrops⟩ := h.ok hkey haccept
              exact .taken r ha hc hon hunknown.2 hreads hroom hdrops
          | error reason =>
              obtain ⟨hnot, hreason⟩ := h.error hkey haccept
              exact .refused reason ha hc hon hunknown.2 hnot hreason
        · rw [if_neg hon]
          refine .excluded ha hc ?_ hunknown.2
          cases hs : m.plan.signal cs ev with
          | on => exact absurd hs hon
          | off => rfl
          | unknown => exact absurd hs hunknown.1
    · rw [judge_of_incomplete ha hc]
      exact .incomplete ha hc
  · simpa [judge, ha] using Fate.inactive ha

theorem takeSample_eq_error {reading : Reading} {key : DimensionKey} {reason : DropReason}
    (h : m.takeSample reading key ev = .error reason) :
    (¬ ∃ q, reading.sample ev = .ok q) ∧ reading.sample ev = .error reason ∨
      ∃ q, m.samples.add m.plan.maxDimensions key q = .error reason := by
  rw [takeSample] at h
  cases hq : reading.sample ev with
  | error r =>
      simp only [hq, bind, Except.bind, Except.error.injEq] at h
      exact .inl ⟨by simp, congrArg Except.error h⟩
  | ok q =>
      cases hadd : m.samples.add m.plan.maxDimensions key q with
      | error r =>
          simp only [hq, hadd, bind, Except.bind, Except.error.injEq] at h
          exact .inr ⟨q, h ▸ hadd⟩
      | ok ss => simp [hq, hadd, bind, Except.bind, pure, Except.pure] at h

theorem takes_sample {reading : Reading} (hrule : m.plan.rule = .sampled what reading) :
    m.Takes ev fun key => (m.takeSample reading key ev).map (⟨·, []⟩) where
  ok {key r} hkey hr := by
    cases ht : m.takeSample reading key ev with
    | error d => simp [ht, Except.map] at hr
    | ok n =>
        obtain ⟨q, ss, hq, hss, rfl⟩ := (takeSample_eq_ok ev).1 ht
        simp only [ht, Except.map, Except.ok.injEq] at hr
        subst hr
        refine ⟨?_, fun _ => ⟨key, hkey, ?_⟩, rfl⟩
        · rw [MeasureRule.Reads.eq_def, hrule]
          exact Reading.sample_isOk.1 ⟨q, hq⟩
        · exact Accumulators.add_isOk.1 ⟨ss, hss⟩
  error {key reason} hkey hr := by
    have ht : m.takeSample reading key ev = .error reason := by
      cases ht : m.takeSample reading key ev with
      | ok n => simp [ht, Except.map] at hr
      | error d => simpa [ht, Except.map] using hr
    rcases takeSample_eq_error ht with ⟨hread, hq⟩ | ⟨q, hadd⟩
    · refine ⟨fun ⟨hreads, _⟩ => hread (Reading.sample_isOk.2 (hrule ▸ hreads)), fun hreason => ?_⟩
      rcases Reading.sample_eq_error hq with rfl | rfl <;> cases hreason
    · obtain ⟨hfull, rfl⟩ := Accumulators.add_eq_error.1 hadd
      refine ⟨fun ⟨_, hroom⟩ => ?_, by simp⟩
      obtain ⟨key', hkey', hroom⟩ := hroom (by simp [MetricPlan.isBucketed, hrule])
      cases hkey.symm.trans hkey'
      exact hfull hroom

/-- Every sample meets one of these fates. -/
theorem fate_measure (hwhat : m.plan.rule.what? = some what) (hhit : hits.get what = true) :
    Fate m cs ev (m.measure cs ev hits u) := by
  cases hrule : m.plan.rule with
  | timed t => simp [hrule, MeasureRule.what?] at hwhat
  | sampled what' reading =>
      obtain rfl : what' = what := by simpa [hrule, MeasureRule.what?] using hwhat
      simp only [measure, hrule, hhit, if_true]
      exact fate_sampleEvent (takes_sample hrule)
  | passed what' =>
      obtain rfl : what' = what := by simpa [hrule, MeasureRule.what?] using hwhat
      simp only [measure, hrule, hhit, if_true]
      refine fate_sampleEvent ⟨fun {key r} _ hr => ?_, fun _ hr => by cases hr⟩
      cases hr
      exact ⟨by simp [MeasureRule.Reads, hrule], fun hb => by simp [MetricPlan.isBucketed, hrule] at hb, rfl⟩

namespace Fate

variable {x : Emitting Metric × Outcome} (h : Fate m cs ev x)
include h

theorem accepted_iff : x.2 = .accepted ↔ m.active = true ∧ m.plan.Complete ev ∧ m.plan.signal cs ev = .on ∧
    m.windowUnknown = false ∧ m.plan.rule.Reads ev ∧ m.HasRoom ev := by
  cases h <;> grind

theorem unknown_iff : x.2 = .dropped .conditionUnknown ↔
    m.active = true ∧ m.plan.Complete ev ∧ (m.plan.signal cs ev = .unknown ∨ m.windowUnknown = true) := by
  cases h <;> grind

theorem ignored_iff : x.2 = .ignored ↔
    m.active = false ∨ m.plan.Complete ev ∧ m.plan.signal cs ev = .off ∧ m.windowUnknown = false := by
  cases h <;> grind

theorem eq_of_ignored (hx : x.2 = .ignored) : x.1 = ⟨m, []⟩ := by
  cases h <;> first | rfl | cases hx

theorem unknownDrops : x.1.state.unknownDrops =
    m.unknownDrops + if x.2 = .dropped .conditionUnknown then 1 else 0 := by
  cases h with
  | taken r _ _ _ _ _ _ hdrops => simpa using hdrops
  | refused reason _ _ _ _ _ hreason => simp [hreason]
  | inactive | incomplete | unknown | excluded => rfl

end Fate

theorem turnInterval_not_unknown (t : Timing) : (m.turnInterval t cs ev hits).2 ≠ .dropped .conditionUnknown := by
  intro h
  rcases turnInterval_dropped h with h | h | ⟨key, -, hr⟩
  · cases h
  · cases h
  · rcases startInterval_eq_error hr with h | ⟨link, hs⟩
    · cases h
    · rw [Intervals.start] at hs
      split at hs
      · cases hs
      · split at hs <;> cases hs

theorem measure_unknown (m : Metric) (cs : Conditions) (ev : Event) (hits : Hits) (u : Condition.Update) :
    ((m.measure cs ev hits u).2 = .dropped .conditionUnknown →
        m.active = true ∧ m.plan.rule.what?.any hits.get = true) ∧
      (m.measure cs ev hits u).1.state.unknownDrops =
        m.unknownDrops + if (m.measure cs ev hits u).2 = .dropped .conditionUnknown then 1 else 0 := by
  cases hsample : m.plan.rule.what?.any hits.get with
  | true =>
      obtain ⟨what, hwhat, hhit⟩ : ∃ what, m.plan.rule.what? = some what ∧ hits.get what = true := by
        simpa only [Option.any_eq_true] using hsample
      have hfate : Fate m cs ev (m.measure cs ev hits u) := fate_measure hwhat hhit
      exact ⟨fun h => ⟨(hfate.unknown_iff.1 h).1, rfl⟩, hfate.unknownDrops⟩
  | false =>
      have hnone : (m.measure cs ev hits u).2 ≠ .dropped .conditionUnknown ∧
          (m.measure cs ev hits u).1.state.unknownDrops = m.unknownDrops := by
        cases hrule : m.plan.rule with
        | sampled what reading | passed what =>
            have hmiss : hits.get what = false := by simpa [hrule, MeasureRule.what?] using hsample
            simp [measure, hrule, hmiss]
        | timed t =>
            obtain ⟨is, hprepared⟩ := prepareIntervals_eq m cs ev hits u t
            obtain ⟨is', hturned⟩ := turnInterval_eq (m.prepareIntervals t cs ev hits u) cs ev hits t
            rw [measure_timed cs ev hits u hrule]
            refine ⟨turnInterval_not_unknown t, ?_⟩
            rw [hturned, hprepared]
      exact ⟨fun h => absurd h hnone.1, by rw [if_neg hnone.1]; exact hnone.2⟩

end Metric

end EventMetrics
