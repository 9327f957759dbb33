import EventMetrics.Proofs.Engine.Steps
import EventMetrics.Proofs.Metric.Sparing

namespace EventMetrics.Engine

open EventMetrics.Metric (Missed Unopened)

variable {d : Definitions} {o : EngineOptions} {e : Engine}

/-- An event in order that a metric drops, and that does not stop all of its intervals, leaves the metric
with what the event would have left, had it matched none of the metric's own matchers; if it stops all
intervals, none is left. A condition that drops an event keeps its counts and what unseen keys read. -/
theorem drops_spare_state (he : Reachable d o e) (hc : e.closed = false) {ev : Event}
    (hle : (e.ensureStarted ev.time).2 ≤ ev.time) :
    (∀ (i : Nat) (m n : Metric) (r : DropReason),
      (e.ensureStarted ev.time).1.metrics[i]? = some m → (e.process ev).1.metrics[i]? = some n →
      (m.visit e.conditions ev (e.matchers.judge ev)).2 = .dropped r →
      (m.plan.rule.stopAll.any (e.matchers.judge ev).get = false →
        Missed m e.conditions ev (e.matchers.judge ev) m.plan.rule.own n) ∧
      (m.plan.rule.stopAll.any (e.matchers.judge ev).get = true → Unopened n)) ∧
    ∀ (i : Nat) (r : DropReason), (i, r) ∈ (e.condition ev).2.dropped →
      ∃ c, e.conditions.nodes[i]? = some (.simple c) ∧
        (e.process ev).1.conditions.nodes[i]? = some (.simple c) := by
  rw [process_of_le hc hle]
  constructor
  · intro i m n r hm hn hdropped
    rw [apply_metrics, ensureStarted_conditions, ensureStarted_matchers, List.getElem?_map, hm,
      Option.map_some, Option.some.injEq] at hn
    subst hn
    refine ⟨fun hstopAll => Metric.missed_of_dropped hdropped ?_ ?_, Metric.unopened_of_dropped hdropped⟩
    · exact fun i hi => List.mem_append_left _ hi
    · intro i hi _
      rw [Option.mem_def.1 hi] at hstopAll
      exact hstopAll
  · intro i r hi
    rw [apply_conditions, ensureStarted_conditions, ensureStarted_matchers]
    exact Conditions.onEvent_dropped he.wellFormed hi

/-- The time that a machine runs. To toggle it is to start and to stop it, and so is to reset it, which
also ends all that runs. -/
def machine : Definitions where
  matchers := [⟨"on", .simple 1 []⟩, ⟨"off", .simple 2 []⟩, ⟨"toggle", .simple 3 []⟩, ⟨"reset", .simple 4 []⟩,
    ⟨"start", .combination .or ["on", "toggle", "reset"]⟩, ⟨"stop", .combination .or ["off", "toggle", "reset"]⟩]
  conditions := [⟨"power", .simple { start := "start", stop := "stop" }⟩]
  metrics := [{ id := "running", measure := .duration "start" "stop" (some "reset") false .sum,
                bucket := some ⟨100⟩ }]

def toggle : Event := { atom := 3, time := 20 }

/-- A running machine is toggled. -/
theorem drops_spare_state_toggle : ∃ e m n, Reachable machine { start := some 0 } e ∧
    (e.ensureStarted toggle.time).1.metrics[0]? = some m ∧ (e.process toggle).1.metrics[0]? = some n ∧
    (m.visit e.conditions toggle (e.matchers.judge toggle)).2 = .dropped .ambiguousCondition ∧
    Missed m e.conditions toggle (e.matchers.judge toggle) m.plan.rule.own n ∧
    ∃ c, e.conditions.nodes[0]? = some (.simple c) ∧
      (e.process toggle).1.conditions.nodes[0]? = some (.simple c) := by
  obtain ⟨e, he, hopen, hle, hdropped, hsome, hcondition⟩ : ∃ e, Reachable machine { start := some 0 } e ∧
      e.closed = false ∧ (e.ensureStarted toggle.time).2 ≤ toggle.time ∧
      (∀ m ∈ (e.ensureStarted toggle.time).1.metrics,
        (m.visit e.conditions toggle (e.matchers.judge toggle)).2 = .dropped .ambiguousCondition ∧
        m.plan.rule.stopAll.any (e.matchers.judge toggle).get = false) ∧
      ((e.ensureStarted toggle.time).1.metrics[0]?.isSome ∧ (e.process toggle).1.metrics[0]?.isSome) ∧
      (0, .ambiguousCondition) ∈ (e.condition toggle).2.dropped :=
    ⟨_, .call (.process { atom := 1, time := 10 }) (.compiled rfl) (by decide), by decide +kernel,
      by decide +kernel, by decide +kernel, by decide +kernel, by decide +kernel⟩
  obtain ⟨m, hm⟩ := Option.isSome_iff_exists.1 hsome.1
  obtain ⟨n, hn⟩ := Option.isSome_iff_exists.1 hsome.2
  obtain ⟨houtcome, hstopAll⟩ := hdropped m (List.mem_of_getElem? hm)
  obtain ⟨hmetrics, hconditions⟩ := drops_spare_state he hopen hle
  exact ⟨e, m, n, he, hm, hn, houtcome, (hmetrics 0 m n _ hm hn houtcome).1 hstopAll,
    hconditions 0 _ hcondition⟩

/-- A running machine is reset: the event is dropped, and yet nothing runs any more. -/
theorem reset_is_not_spared : ∃ e, compile machine { start := some 0 } = .ok e ∧
    ∃ m ∈ (e.run [.process { atom := 1, time := 10 }]).metrics,
      let hits := e.matchers.judge { atom := 4, time := 20 }
      (m.visit e.conditions { atom := 4, time := 20 } hits).2 = .dropped .ambiguousCondition ∧
      ¬ Missed m e.conditions { atom := 4, time := 20 } hits m.plan.rule.own
        (m.visit e.conditions { atom := 4, time := 20 } hits).1.state := by
  obtain ⟨e, he, m, hm, hdropped, hopen, hmissed⟩ : ∃ e, compile machine { start := some 0 } = .ok e ∧
      ∃ m ∈ (e.run [.process { atom := 1, time := 10 }]).metrics,
        let hits := e.matchers.judge { atom := 4, time := 20 }
        (m.visit e.conditions { atom := 4, time := 20 } hits).2 = .dropped .ambiguousCondition ∧
        (m.visit e.conditions { atom := 4, time := 20 } hits).1.state.intervals.opened.size = 0 ∧
        (m.visitAs e.conditions { atom := 4, time := 20 } hits
          (hits.without m.plan.rule.own)).1.state.intervals.opened.size = 1 := ⟨_, rfl, by decide +kernel⟩
  refine ⟨e, he, m, hm, hdropped, fun h => ?_⟩
  rw [← h.intervals, hopen] at hmissed
  cases hmissed

end EventMetrics.Engine
