import EventMetrics.Proofs.Engine.Steps
import EventMetrics.Proofs.Metric.Tidy

namespace EventMetrics

namespace Metric

/-- After an event: activity is as the windows say, the open bucket holds the instant, no timer is
overdue, no report is owed, and nothing is gathered for a bucket that is not open. -/
structure Met (time : Int) (m : Metric) : Prop where
  active : m.active = m.windows.isActive time
  covered : m.plan.isBucketed = true → m.active = true → m.grid.current ≠ none
  slot : ∀ slot, m.grid.current = some slot → slot.start ≤ time ∧ time < slot.stop
  deadline : ∀ d, m.nextDeadline = some d → time < d
  pending : m.pending = none
  samples : m.grid.current = none → m.samples = .empty
  totals : ∀ t, m.plan.rule = .timed t → t.aggregation = .sum → m.grid.current = none →
    m.intervals.totals = .empty

/-- After a tick: timers at the instant itself are left to the events at it. -/
structure Waits (now : Int) (m : Metric) : Prop where
  slot : ∀ slot, m.grid.current = some slot → slot.start ≤ now ∧ now ≤ slot.stop
  deadline : ∀ d, m.nextDeadline = some d → now ≤ d
  pending : m.pending = none

variable {m : Metric} {τ : Int}

theorem Settled.met (h : Settled τ m) (hq : Quiet τ m) : Met τ m where
  active := h.active_eq hq
  covered hb ha := h.covered ha hb
  slot slot hs := ⟨(h.slot slot hs).2.1, hq.lt_stop hs⟩
  deadline := hq
  pending := h.pending
  samples := h.samples
  totals := h.totals

theorem Settled.waits (h : Settled τ m) : Waits τ m where
  slot slot hs := ⟨(h.slot slot hs).2.1, (h.slot slot hs).2.2.1⟩
  deadline _ hd := h.le_deadline hd
  pending := h.pending

end Metric

namespace Engine

open EventMetrics.Metric (Settled Met Waits)
open Instant (last)

variable {d : Definitions} {o : EngineOptions} {e e' : Engine} {c : Call} {reached : Int}

theorem Moves.settled (hmoves : Moves e reached c e') (h : ∀ m ∈ e.metrics, Settled reached m)
    (hw : e.watermark = some reached) (hc : c.InRange) (hopen : e'.closed = false) :
    ∃ τ, e'.watermark = some τ ∧ ∀ m ∈ e'.metrics, Settled τ m := by
  cases hmoves with
  | late | behind => exact ⟨reached, hw, h⟩
  | process ev hle =>
      refine ⟨ev.time, apply_watermark e ev, ?_⟩
      rw [apply_metrics]
      intro n hn
      obtain ⟨m, hm, rfl⟩ := List.mem_map.1 hn
      exact (h m hm).visit e.conditions ev _ hle hc.2
  | advanceTo now hle =>
      refine ⟨now, rfl, ?_⟩
      rw [each_metrics]
      intro n hn
      obtain ⟨m, hm, rfl⟩ := List.mem_map.1 hn
      exact (h m hm).advanceTo e.conditions hle hc.2
  | shutdown now => cases hopen

theorem settled_ensureStarted (he : Reachable d o e) (ho : o.InRange) {time : Int} (ht : Instant.InRange time)
    (h : ∀ τ, e.watermark = some τ → ∀ m ∈ e.metrics, Settled τ m) :
    ∀ m ∈ (e.ensureStarted time).1.metrics, Settled (e.ensureStarted time).2 m := by
  cases hw : e.watermark with
  | some w =>
      rw [ensureStarted_of_some hw]
      exact h w hw
  | none =>
      obtain ⟨-, hstart, hfresh⟩ := he.fresh hw
      have hrange : Instant.InRange (e.startTime.getD time) := by
        cases hs : e.startTime with
        | none => exact ht
        | some s => exact ho s (hstart ▸ hs)
      rw [ensureStarted_of_none hw, each_metrics]
      intro n hn
      obtain ⟨m, hm, rfl⟩ := List.mem_map.1 hn
      exact .start (hfresh m hm) hrange e.conditions

theorem Reachable.settled (h : Reachable d o e) (ho : o.InRange) (hopen : e.closed = false) {τ : Int}
    (hw : e.watermark = some τ) : ∀ m ∈ e.metrics, Settled τ m := by
  induction h generalizing τ with
  | compiled h =>
      obtain ⟨c, -, he⟩ := compile_eq_ok.1 h
      rw [he] at hw
      cases hw
  | @call e c he hc ih =>
      cases hclosed : e.closed with
      | true =>
          rw [call_of_closed hclosed, hclosed] at hopen
          cases hopen
      | false =>
          have hstarted := settled_ensureStarted he ho hc fun τ hw => ih hclosed hw
          obtain ⟨τ', hw', hm⟩ := (call_moves hclosed c).settled hstarted (ensureStarted_watermark e c.time) hc hopen
          cases hw.symm.trans hw'
          exact hm
  | drain _ ih => exact ih hopen hw

theorem ensureStarted_le {time : Int} (h : ∀ w ∈ e.watermark.or e.startTime, w ≤ time) :
    (e.ensureStarted time).2 ≤ time := by
  cases hw : e.watermark with
  | some w =>
      rw [ensureStarted_of_some hw]
      exact h w (by simp [hw])
  | none =>
      rw [ensureStarted_of_none hw]
      cases hs : e.startTime with
      | none => exact Int.le_refl time
      | some s => exact h s (by simp [hw, hs])

/-- As long as an engine is not shut down, an event in order and a tick in order leave every metric as it
should be at their instant. -/
theorem metrics_in_order (h : Reachable d o e) (ho : o.InRange) (hopen : e.closed = false) :
    (∀ ev : Event, Instant.InRange ev.time → ev.time < last → (∀ w ∈ e.watermark.or e.startTime, w ≤ ev.time) →
      ∀ m ∈ (e.process ev).1.metrics, Met ev.time m) ∧
    ∀ now, Instant.InRange now → (∀ w ∈ e.watermark.or e.startTime, w ≤ now) →
      ∀ m ∈ (e.advanceTo now).metrics, Waits now m := by
  constructor
  · intro ev hev hlast hle
    have hstarted := settled_ensureStarted h ho hev fun τ hw => h.settled ho hopen hw
    have hreached := ensureStarted_le hle
    rw [process_of_le hopen hreached, apply_metrics]
    intro n hn
    obtain ⟨m, hm, rfl⟩ := List.mem_map.1 hn
    have hsettled := (hstarted m hm).visit (e.ensureStarted ev.time).1.conditions ev
      ((e.ensureStarted ev.time).1.matchers.judge ev) hreached hev.2
    have hadvanced := ((hstarted m hm).advance (e.ensureStarted ev.time).1.conditions hreached hev.2).1
    exact hsettled.met (Metric.quiet_visit hadvanced rfl _ hlast)
  · intro now hnow hle
    have hstarted := settled_ensureStarted h ho hnow fun τ hw => h.settled ho hopen hw
    have hreached := ensureStarted_le hle
    rw [advanceTo_eq hopen, if_neg (Int.not_lt.2 hreached), each_metrics]
    intro n hn
    obtain ⟨m, hm, rfl⟩ := List.mem_map.1 hn
    exact ((hstarted m hm).advanceTo _ hreached hnow.2).waits

/-- The second minute begins with a visit, and the third with a tick. -/
theorem metrics_in_order_doors : ∃ e, Reachable doors {} e ∧ e.closed = false ∧
    (∀ m ∈ (e.process { atom := 1, time := 60000000000 }).1.metrics, Met 60000000000 m) ∧
    ∀ m ∈ (e.advanceTo 120000000000).metrics, Waits 120000000000 m := by
  obtain ⟨e, he, hopen, hmark⟩ : ∃ e, compile doors {} = .ok e ∧
      (e.run [.process { atom := 1, time := 5 }]).closed = false ∧
      (e.run [.process { atom := 1, time := 5 }]).watermark = some 5 := ⟨_, rfl, by decide +kernel, by decide +kernel⟩
  have hreach : Reachable doors {} (e.run [.process { atom := 1, time := 5 }]) :=
    Reachable.run (.compiled he) (by decide)
  have horder : ∀ t : Int, 5 ≤ t → ∀ w ∈ (e.run [.process { atom := 1, time := 5 }]).watermark.or
      (e.run [.process { atom := 1, time := 5 }]).startTime, w ≤ t := by
    intro t ht w hw
    rw [hmark] at hw
    cases hw
    exact ht
  obtain ⟨hprocess, hadvance⟩ := metrics_in_order hreach (by decide) hopen
  exact ⟨_, hreach, hopen, hprocess _ (by decide) (by decide) (horder _ (by decide)),
    hadvance _ (by decide) (horder _ (by decide))⟩

/-- The visits in the first moments after each start of a machine. -/
def boots : Definitions where
  matchers := [⟨"boot", .simple 3 []⟩]
  metrics := [{ id := "visits", measure := .count "boot", bucket := some ⟨10⟩, activations := [⟨"boot", ⟨5⟩, none⟩] }]

/-- An engine that was shut down during activity shows it for ever, and its deadline stays behind. -/
theorem overdue_after_shutdown : ∃ e, compile boots { start := some 0 } = .ok e ∧
    Reachable boots { start := some 0 } (e.run [.process { atom := 3, time := 0 }, .shutdown 2]) ∧
    (e.run [.process { atom := 3, time := 0 }, .shutdown 2]).watermark = some 2 ∧
    ∃ m ∈ ((e.run [.process { atom := 3, time := 0 }, .shutdown 2]).process { atom := 3, time := 9 }).1.metrics,
      m.active = true ∧ m.windows.isActive 9 = false ∧ m.nextDeadline = some 5 := by
  obtain ⟨e, he, hlast⟩ : ∃ e, compile boots { start := some 0 } = .ok e ∧
      (e.run [.process { atom := 3, time := 0 }, .shutdown 2]).watermark = some 2 ∧
      ∃ m ∈ ((e.run [.process { atom := 3, time := 0 }, .shutdown 2]).process { atom := 3, time := 9 }).1.metrics,
        m.active = true ∧ m.windows.isActive 9 = false ∧ m.nextDeadline = some 5 := ⟨_, rfl, by decide +kernel⟩
  exact ⟨e, he, Reachable.run (.compiled he) (by decide), hlast⟩

end Engine

end EventMetrics
