import EventMetrics.Proofs.Engine.Settled
import EventMetrics.Proofs.Metric.Slots

namespace EventMetrics.Engine

open EventMetrics.Metric (Settled Windowing Windowed Fresh)
open Instant (last)

variable {d : Definitions} {o : EngineOptions} {e e₀ : Engine} {calls : List Call} {m m₀ : Metric} {H : History}
  {τ : Int} {c : Call}

/-- An engine whose one metric, with windows, has come to an instant. -/
structure Watching (e₀ : Engine) (m₀ : Metric) (H : History) (e : Engine) (m : Metric) (τ : Int) : Prop where
  matchers : e.matchers = e₀.matchers
  metrics : e.metrics = [m]
  watermark : e.watermark = some τ
  closed : e.closed = false
  settled : Settled τ m
  windowing : Windowing m₀ e₀.matchers H τ m e.queue

namespace Watching

variable (h : Watching e₀ m₀ H e m τ) (hm : Fresh m₀) (hw : m₀.windows ≠ [])
include h hm hw

theorem call (hc : c.InRange) : (∃ m' τ', Watching e₀ m₀ (H ++ e.heard m₀.plan.id c) (e.call c) m' τ') ∨
    (e.call c).closed = true ∧ m₀.Windowed e₀.matchers (H ++ e.heard m₀.plan.id c) (e.call c).queue := by
  have hon := h.settled.toOnTime
  have hmoves := call_moves h.closed c
  rw [ensureStarted_of_some h.watermark] at hmoves
  generalize hnext : e.call c = e' at hmoves
  cases hmoves with
  | late ev hlt =>
      left
      rw [heard, hnext, if_neg (Nat.lt_irrefl _), List.append_nil]
      exact ⟨m, τ, h.matchers, h.metrics, h.watermark, h.closed, h.settled, h.windowing⟩
  | process ev hle =>
      left
      have hsettled := h.settled.visit e.conditions ev (e.matchers.judge ev) hle hc.2
      have hvisit := fun b => h.windowing.visit hm hw hon e.conditions b hle hc.2
      rw [← h.matchers] at hvisit
      rw [heard, hnext, apply_processed, if_pos (Nat.lt_succ_self _), Living.apply_alone h.metrics]
      exact ⟨_, _, h.matchers, rfl, rfl, h.closed, hsettled, h.matchers ▸ hvisit _⟩
  | behind now hlt =>
      left
      rw [heard, List.append_nil]
      exact ⟨m, τ, h⟩
  | advanceTo now hle =>
      left
      have hdone := h.windowing.advanceTo hm hw hon e.conditions hle hc.2
      rw [heard, List.append_nil]
      refine ⟨(m.advanceTo e.conditions now).state, now, h.matchers, by simp [h.metrics], rfl, h.closed,
        h.settled.advanceTo e.conditions hle hc.2, ?_⟩
      rwa [each_queue, h.metrics, List.flatMap_singleton]
  | shutdown now =>
      have hlast := Int.max_le.2 ⟨hc.2, hon.inRange.2⟩
      have hdone := h.windowing.shutdown hm hw hon e.conditions (Int.le_max_right now τ) hlast
      rw [heard, List.append_nil]
      refine .inr ⟨rfl, ?_⟩
      change m₀.Windowed e₀.matchers H (e.each (·.shutdown e.conditions (max now τ)) (max now τ)).queue
      rwa [each_queue, h.metrics, List.flatMap_singleton]

theorem run (hcalls : ∀ c ∈ calls, c.InRange) :
    m₀.Windowed e₀.matchers (H ++ e.history m₀.plan.id calls) (e.run calls).queue := by
  -- the history goes along with the engine, until a call closes it
  induction calls generalizing e m τ H with
  | nil =>
      have hreports := h.windowing.reports
      rw [Metric.owed, h.settled.pending, Option.toList_none, List.map_nil, List.append_nil] at hreports
      simpa [history, Engine.run] using hreports
  | cons c calls ih =>
      have hrest := fun k hk => hcalls k (List.mem_cons_of_mem _ hk)
      rw [history, ← List.append_assoc]
      change m₀.Windowed _ _ ((e.call c).run calls).queue
      rcases h.call hm hw (hcalls c List.mem_cons_self) with ⟨m', τ', h'⟩ | ⟨hclosed, hreports⟩
      · exact ih h' hrest
      · rwa [history_of_closed hclosed, List.append_nil, run_of_closed hclosed]

end Watching

theorem watching_started (hmetrics : e.metrics = [m₀]) (hmark : e.watermark = none) (hclosed : e.closed = false)
    (hqueue : e.queue = []) (hm : Fresh m₀) (hw : m₀.windows ≠ []) {time : Int}
    (hrange : Instant.InRange (e.startTime.getD time)) :
    Watching e m₀ [] (e.ensureStarted time).1 (m₀.start e.conditions (e.startTime.getD time))
      (e.startTime.getD time) := by
  have hstart : Windowing m₀ e.matchers [] (e.startTime.getD time) _ [] :=
    .start hm hw e.conditions (e.startTime.getD time)
  rw [ensureStarted_of_none hmark]
  refine ⟨rfl, by simp [hmetrics], rfl, hclosed, .start hm hrange e.conditions, ?_⟩
  rwa [each_queue, hqueue, hmetrics, List.flatMap_singleton]

/-- What a run reports of the only metric of an engine. -/
theorem windowed_alone (hmetrics : e.metrics = [m₀]) (hmark : e.watermark = none) (hclosed : e.closed = false)
    (hqueue : e.queue = []) (hm : Fresh m₀) (hw : m₀.windows ≠ [])
    (hstart : ∀ s, e.startTime = some s → Instant.InRange s) (hcalls : ∀ c ∈ calls, c.InRange) :
    m₀.Windowed e.matchers (e.history m₀.plan.id calls) (e.run calls).queue := by
  cases calls with
  | nil =>
      refine ⟨?_, ?_, ?_, ?_⟩ <;> simp [Engine.run, hqueue, Record.Lays]
  | cons c calls =>
      have hrange : Instant.InRange (e.startTime.getD c.time) := by
        cases hs : e.startTime with
        | some s => exact hstart s hs
        | none => exact hcalls c List.mem_cons_self
      have hrun := (watching_started hmetrics hmark hclosed hqueue hm hw hrange).run hm hw hcalls
      have hsame : (e.ensureStarted c.time).1.run (c :: calls) = e.run (c :: calls) := by
        simp only [Engine.run, List.foldl_cons, call_started hclosed]
      have hhistory : (e.ensureStarted c.time).1.history m₀.plan.id (c :: calls) = e.history m₀.plan.id (c :: calls) :=
        history_started hclosed m₀.plan.id (c :: calls) c.time
      rwa [List.nil_append, hhistory, hsame] at hrun

theorem windowed_run (h : compile d o = .ok e) (ho : o.InRange) (hm : m ∈ e.metrics) (hw : m.windows ≠ [])
    (hcalls : ∀ c ∈ calls, c.InRange) : m.Windowed e.matchers (e.history m.plan.id calls)
      ((e.run calls).queue.filter (·.metric = m.plan.id)) := by
  have howning := compile_owning h
  have halone := restrict_alone (Reachable.compiled h).nodup hm
  obtain ⟨c, -, he⟩ := compile_eq_ok.1 h
  have hwindowed := windowed_alone halone (by rw [he]; rfl) (by rw [he]; rfl) (by rw [he]; rfl)
    (compile_fresh h m hm) hw (by rw [he]; exact ho) hcalls
  rwa [history_restrict howning, run_restrict howning] at hwindowed

/-- What is reported of a metric with windows. A slot that a row or a stretch of empty buckets covers starts at an
instant that some window held when time was there, and an event that was passed on came while some window held
its instant. Such a slot starts where another one ends, or else with the very event that reopened the windows. The
rows and stretches cover nothing but their slots, and an alert comes with a row that ends when it is fired. So once
no window holds an instant, no later slot starts and no later event is passed on, unless an event opens a window
before. -/
theorem reports_within_windows (h : compile d o = .ok e) (ho : o.InRange) (hm : m ∈ e.metrics) (hw : m.windows ≠ [])
    (hcalls : ∀ c ∈ calls, c.InRange) :
    let records := (e.run calls).queue.filter (·.metric = m.plan.id)
    let H := e.history m.plan.id calls
    (∀ x ∈ records, ∀ s, x.HasSlot m.grid.size s → m.CoveredAt e.matchers H s ∧
      (m.ReopenedAt e.matchers H s ∨ ∃ y ∈ records, ∃ s', y.HasSlot m.grid.size s' ∧ s' + m.grid.size = s)) ∧
    (∀ r, .event r ∈ records → m.PassedAt e.matchers H r) ∧
    (∀ x ∈ records, ∀ a ∈ x.span?, ∀ i, a.1 ≤ i → i < a.2 →
      ∃ s, x.HasSlot m.grid.size s ∧ s ≤ i ∧ i < s + m.grid.size) ∧
    (∀ a, .alert a ∈ records → ∃ r, .bucket r ∈ records ∧ r.stop = a.firedAt) ∧
    ∀ earlier later t, H = earlier ++ later → (∀ x ∈ earlier, x.1.time ≤ t) → ¬ m.Covered e.matchers earlier t →
      ∀ s, t < s → ((∃ x ∈ records, x.HasSlot m.grid.size s) ∨ ∃ r, .event r ∈ records ∧ r.time = s) →
        ∃ x ∈ later, x.1.time ≤ s ∧ ∃ a ∈ m.windows, a.opens e.matchers x.1 = true := by
  intro records H
  have hwindowed : m.Windowed e.matchers H records := windowed_run h ho hm hw hcalls
  refine ⟨fun x hx s hs => ?_, hwindowed.events, fun x hx a ha i hlow hhigh => ?_, hwindowed.alerts,
    fun earlier later t hH hearlier hidle s hlt hat => ?_⟩
  · obtain ⟨hcovered, hcause⟩ := hwindowed.slots s ⟨x, hx, hs⟩
    refine ⟨hcovered, hcause.imp_right ?_⟩
    rintro ⟨s', ⟨y, hy, hs'⟩, heq⟩
    exact ⟨y, hy, s', hs', heq⟩
  · exact (hwindowed.fits x hx).slot ha hlow hhigh
  · have hcovered : m.CoveredAt e.matchers H s := by
      rcases hat with hlays | ⟨r, hr, rfl⟩
      · exact (hwindowed.slots s hlays).covered
      · exact (hwindowed.events r hr).coveredAt
    exact (hH ▸ hcovered).opened hearlier hidle hlt

/-- A machine that starts twice: the visits of the first moments, each time in a slot of its own. -/
theorem reports_within_windows_boots : ∃ e m, compile boots { start := some 0 } = .ok e ∧ m ∈ e.metrics ∧
    m.windows ≠ [] ∧
    let calls := [Call.process { atom := 3, time := 0 }, .process { atom := 3, time := 34 }, .advanceTo 60]
    let records := (e.run calls).queue.filter (·.metric = m.plan.id)
    (∀ c ∈ calls, c.InRange) ∧ records.map (·.span?) = [some (0, 10), some (34, 44)] ∧
    ∀ x ∈ records, ∀ s, x.HasSlot m.grid.size s → m.CoveredAt e.matchers (e.history m.plan.id calls) s := by
  have he : compile boots { start := some 0 } = .ok _ := rfl
  have hcalls : ∀ c ∈ [Call.process { atom := 3, time := 0 }, .process { atom := 3, time := 34 }, .advanceTo 60],
      c.InRange := by decide
  obtain ⟨hslots, -⟩ := reports_within_windows he (fun s hs => by cases hs; decide) (.head _) (by simp) hcalls
  exact ⟨_, _, he, .head _, by simp, hcalls, by decide +kernel, fun x hx s hs => (hslots x hx s hs).1⟩

end EventMetrics.Engine
