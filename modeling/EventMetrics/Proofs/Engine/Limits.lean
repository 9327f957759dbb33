import EventMetrics.Proofs.Engine.Feeding
import EventMetrics.Proofs.Metric.Limits

namespace EventMetrics.Engine

open Instant (first last)

variable {d : Definitions} {o : EngineOptions} {e final : Engine} {calls : List Call} {m : Metric}

theorem tracked_le (he : Reachable d o e) : ∀ n ∈ e.metrics, n.tracked.card ≤ n.plan.maxDimensions := by
  refine he.forall_metrics Metric.kept_room fun n hn => ?_
  rw [Metric.tracked, hn.samples, hn.intervals]
  cases n.plan.rule <;> exact Nat.zero_le _

/-- In a run that ends, a bucket has one row a key. For a metric that takes samples a bucket has no more rows than the
limit of the metric. For one that measures time it may have one more for each interval that events have ended since
the bucket before; between buckets only sparse maxima gather any. No metric ever keeps more keys than its limit, and
it drops an event for the limit only if it keeps as many and that of the event is not among them: of samples those in
the open bucket, of intervals those that are open. -/
theorem rows_within_limit (h : compile d o = .ok e) (ho : o.InRange) (hm : m ∈ e.metrics)
    (hcalls : ∀ c ∈ calls, c.InRange) (hrun : e.run? calls = some final) :
    let records := final.queue.filter (·.metric = m.plan.id)
    let rowsAt := fun i => (Record.buckets records).filter (·.start = i)
    let limit := m.plan.maxDimensions
    let size := m.grid.size
    let events := e.events m.plan.id calls
    (∀ i, (rowsAt i).Pairwise fun r r' => r.dimension.canonical ≠ r'.dimension.canonical) ∧
    (∀ what reading, m.plan.rule = .sampled what reading → ∀ i, (rowsAt i).length ≤ limit) ∧
    (∀ t, m.plan.rule = .timed t → ∀ r ∈ Record.buckets records, ∃ a ≤ r.start,
      (∀ j < r.start, Record.Lays size j records → Instant.after j size ≤ a) ∧
      (m.windows = [] ∨ t.aggregation = .sum → a = r.start) ∧
      (rowsAt r.start).length ≤ limit + m.plan.releases e.matchers
        (events.filter fun ev => a ≤ ev.time ∧ ev.time < Instant.after r.start size)) ∧
    ∀ ev, ∀ n ∈ (final.ensureStarted ev.time).1.metrics, n.tracked.card ≤ n.plan.maxDimensions ∧
      ((n.visit final.conditions ev (final.matchers.judge ev)).2 = .dropped .dimensionLimit →
        ∃ key, DimensionKey.extract? ev n.plan.dimensions = some key ∧ key.canonical ∉ n.tracked ∧
          n.tracked.card = n.plan.maxDimensions) := by
  intro records rowsAt limit size events
  obtain ⟨hends, rfl⟩ := (run?_eq_some (.compiled h) ho hcalls).1 hrun
  have hfresh := compile_fresh h m hm
  have hlast := compile_last h m hm
  obtain ⟨m', -, bs, hfed, hwithin⟩ := steady_run (Metric.Capped.steady e.matchers m (e.startOf calls 0))
    (Metric.Capped.leaves e.matchers m (e.startOf calls 0)) h ho hm hcalls hends ⟨[], .fresh m _, by simp⟩
    fun hs => ⟨[], .start hfresh hlast hs e.conditions, .start hfresh e.matchers _ e.conditions⟩
  have hrows : ∀ i, rowsAt i = [] ∨ ∃ b ∈ bs, rowsAt i = b.rows.map (m.toBucket b.slot b.stop) := hfed.rows_cases
  have hstops : ∀ b ∈ bs, b.slot.stop = Instant.after b.slot.start size := fun b hb =>
    (hfed.numbered.sized _ (List.mem_map_of_mem hb)).stop
  refine ⟨fun i => ?apart, fun what reading hrule i => ?sampled, fun t hrule r hr => ?timed, fun ev n hn => ?tracked⟩
  case apart =>
    rcases hrows i with hnone | ⟨b, hb, hrow⟩
    · rw [hnone]
      exact .nil
    · rw [hrow]
      exact List.pairwise_map.2 (hfed.apart b hb)
  case sampled =>
    rcases hrows i with hnone | ⟨b, hb, hrow⟩
    · rw [hnone]
      exact Nat.zero_le _
    · obtain ⟨a, hbound⟩ := hwithin b hb
      have hcount := hbound.rows
      rw [MetricPlan.releases_of_not_timed (by simp [hrule]), Nat.add_zero] at hcount
      rwa [hrow, List.length_map]
  case timed =>
    obtain ⟨b, hb, hstart⟩ := hfed.mem_rows hr
    obtain ⟨a, hbound⟩ := hwithin b hb
    rw [hstart, ← hstops b hb]
    have hseamless : m.windows = [] ∨ t.aggregation = .sum → m.Seamless := by
      refine Or.imp_right fun hsum t' ht => ?_
      rw [hrule] at ht
      cases ht
      exact hsum
    refine ⟨a, hbound.start, fun j hj hlays => ?_, fun hm => hbound.seamless (hseamless hm), ?_⟩
    · obtain ⟨c, hc, rfl⟩ := (hfed.lays j).1 hlays
      exact hstops c hc ▸ hbound.after c hc hj
    · have hrow : rowsAt b.slot.start = _ := hfed.rows_at hb
      rw [hrow, List.length_map]
      exact hbound.rows
  case tracked =>
    have hkept := forall_metrics_start Metric.kept_room (tracked_le (.run (.compiled h) hcalls)) ev.time n hn
    exact ⟨hkept, Metric.visit_refused hkept⟩

/-- The time that guests spend in a house that looks after one at a time. -/
def house : Definitions where
  matchers := [⟨"enter", .simple 1 []⟩, ⟨"leave", .simple 2 []⟩]
  metrics := [{ id := "time", measure := .duration "enter" "leave" none false .sum, bucket := some ⟨100⟩,
                dimensions := ["user"], maxDimensions := some 1 }]

def guest (atom : Int) (user : String) (time : Int) : Event :=
  { atom, time, fields := Table.empty.insert "user" (.text user) }

def stays : List Call :=
  [.process (guest 1 "ann" 10), .process (guest 2 "ann" 20), .process (guest 1 "bob" 30), .shutdown 100]

theorem rows_within_limit_house : ∃ e m t final, compile house { start := some 0 } = .ok e ∧ m ∈ e.metrics ∧
    m.plan.rule = .timed t ∧ m.plan.maxDimensions = 1 ∧ (∀ c ∈ stays, c.InRange) ∧ e.run? stays = some final ∧
    ∀ r ∈ Record.buckets (final.queue.filter (·.metric = m.plan.id)),
      ((Record.buckets (final.queue.filter (·.metric = m.plan.id))).filter (·.start = r.start)).length ≤
        1 + m.plan.releases e.matchers ((e.events m.plan.id stays).filter fun ev =>
          r.start ≤ ev.time ∧ ev.time < Instant.after r.start 100) := by
  have he : compile house { start := some 0 } = .ok _ := rfl
  have ho : EngineOptions.InRange { start := some 0 } := by decide
  have htimely : ∀ c ∈ stays, Timely c := by decide
  have hcalls : ∀ c ∈ stays, c.InRange := by decide
  have hrun := (run?_eq_some (.compiled he) ho hcalls).2 ⟨ends_of_timely htimely, rfl⟩
  obtain ⟨-, -, htimed, -⟩ := rows_within_limit he ho (.head _) hcalls hrun
  refine ⟨_, _, _, _, he, .head _, rfl, rfl, hcalls, hrun, fun r hr => ?_⟩
  obtain ⟨a, -, -, ha, hcount⟩ := htimed _ rfl r hr
  obtain rfl := ha (.inl rfl)
  exact hcount

/-- Both have a row in the one bucket. Ann could not come back while Bob was there, although the open bucket had
time of hers. -/
theorem rows_beyond_limit : ∃ e, compile house { start := some 0 } = .ok e ∧
    (∀ m ∈ e.metrics, m.plan.maxDimensions = 1) ∧
    (Record.buckets (e.run stays).queue).map (fun r => (r.start, r.stop, r.dimension.canonical, r.samples)) =
      [(0, 100, "user\x1esann", 1), (0, 100, "user\x1esbob", 1)] ∧
    ∃ m ∈ (e.run (stays.take 3)).metrics,
      m.grid.current = some ⟨0, 100, 0⟩ ∧ (m.intervals.totals.get? ⟨[("user", .text "ann")]⟩).isSome = true ∧
      (m.visit e.conditions (guest 1 "ann" 40) (e.matchers.judge (guest 1 "ann" 40))).2 = .dropped .dimensionLimit :=
  ⟨_, rfl, by decide +kernel⟩

end EventMetrics.Engine
