import EventMetrics.Proofs.Engine.Checked
import EventMetrics.Proofs.Engine.Samples
import EventMetrics.Proofs.Metric.Summing

namespace EventMetrics.Engine

open EventMetrics.Metric (Life)
open Instant (first last)

variable {e : Engine} {d : Definitions} {o : EngineOptions}

def gaps (e : Engine) (id : String) : List Record.Skipped :=
  Record.gaps (e.queue.filter (·.metric = id))

/-- If no number leaves its word, a run comes to an end. A row of a metric that sums time has the number of the
instants of its span that count for its key: at them an interval of the key is open, the metric is active and its
condition is on, after all events up to them. A span has a row of a key, one, if there is such an instant in it. Each
of them from the start up to the shutdown is in one row of the key, and an empty bucket has none. -/
theorem rows_of_uptime (h : compile d o = .ok e) (ho : o.InRange) {m : Metric} (hm : m ∈ e.metrics)
    {t : Timing} (hrule : m.plan.rule = .timed t) (hsum : t.aggregation = .sum) (hlinks : m.Unlinked)
    {calls : List Call} (hcalls : ∀ c ∈ calls, Ordinary c) {now : Int} (hnow : Instant.InRange now)
    (hrun : e.run! (calls ++ [.shutdown now]) ≠ throw .overflow) :
    ∃ final, e.run! (calls ++ [.shutdown now]) = pure final ∧
      let rows := final.rows m.plan.id
      let up := m.isUp t e.matchers e.conditions (e.history m.plan.id calls)
      (∀ r ∈ rows, r.value = .whole (Instant.count (up r.dimension) r.start r.stop)) ∧
      (∀ r ∈ rows, ∀ k, rows.countP (·.Spans k r.start r.stop) =
        if 0 < Instant.count (up k) r.start r.stop then 1 else 0) ∧
      (∃ stop, final.watermark = some stop ∧ now ≤ stop ∧ ∀ k i, e.startOf calls now ≤ i → i < stop →
        up k i = true → rows.countP (·.Covers k i) = 1) ∧
      ∀ g ∈ final.gaps m.plan.id, ∀ k i, g.start ≤ i → i < g.stop → up k i = false := by
  obtain ⟨cs, n, τ, stop, rs, hτ, hlate, hlast, hrange, hlife, hmark, -, hqueue⟩ :=
    shutdown_life h ho hm hcalls hnow
  have hfresh := compile_fresh h m hm
  obtain ⟨hon, hsumming⟩ := hlife.summing hfresh hrule hsum hlinks (compile_wellFormed h) hrange
  obtain ⟨hbooked, hsilent⟩ := hsumming.shutdown hon hsum hτ hlast
  rw [← hqueue] at hbooked hsilent
  refine ⟨_, shutdown!_of_ordinary (.compiled h) ho hcalls hnow hrun, fun r hr => ?_, hbooked.once,
    ⟨stop, hmark, hlate, hbooked.covers⟩, fun g hg => (hsilent g hg).2⟩
  obtain ⟨-, -, hvalue⟩ := hbooked.exact r hr
  exact hvalue

theorem rows_of_uptime_doors : ∃ e m t final, compile doors {} = .ok e ∧ m ∈ e.metrics ∧
    m.plan.rule = .timed t ∧ t.aggregation = .sum ∧ m.Unlinked ∧
    let calls := [Call.process { atom := 1, time := 5 }, .process { atom := 2, time := 60000000007 }]
    (∀ c ∈ calls, Ordinary c) ∧ Instant.InRange 90000000000 ∧
    e.run! (calls ++ [.shutdown 90000000000]) ≠ throw .overflow ∧
    e.run! (calls ++ [.shutdown 90000000000]) = pure final ∧ (final.rows m.plan.id).length = 2 ∧
    ∀ r ∈ final.rows m.plan.id, r.value = .whole (Instant.count (m.isUp t e.matchers e.conditions
      (e.history m.plan.id calls) r.dimension) r.start r.stop) := by
  let calls := [Call.process { atom := 1, time := 5 }, .process { atom := 2, time := 60000000007 }]
  have hcalls : ∀ c ∈ calls, Ordinary c := by decide
  obtain ⟨e, he, m, hm, t, hrule, hsum, hlinks, hfits, hlength⟩ : ∃ e, compile doors {} = .ok e ∧
      ∃ m ∈ e.metrics, ∃ t, m.plan.rule = .timed t ∧ t.aggregation = .sum ∧ m.plan.gate = none ∧
        e.runFits (calls ++ [.shutdown 90000000000]) = true ∧
        ((e.run (calls ++ [.shutdown 90000000000])).rows m.plan.id).length = 2 :=
    ⟨_, rfl, _, .tail _ (.head _), _, rfl, rfl, rfl, by decide +kernel⟩
  have hunlinked : m.Unlinked := fun g hg => by cases hlinks.symm.trans hg
  have hrun : e.run! (calls ++ [.shutdown 90000000000]) = pure (e.run (calls ++ [.shutdown 90000000000])) :=
    run!_of_timely (.compiled he) (by decide) (by decide) hfits
  have hne : e.run! (calls ++ [.shutdown 90000000000]) ≠ throw .overflow := hrun ▸ (Checked.throw_ne_pure ·.symm)
  obtain ⟨final, hfinal, hrows, -⟩ :=
    rows_of_uptime he (by decide) hm hrule hsum hunlinked hcalls (by decide) hne
  obtain rfl := Checked.pure_inj.1 (hrun.symm.trans hfinal)
  exact ⟨e, m, t, _, he, hm, hrule, hsum, hunlinked, hcalls, by decide, hne, hfinal, hlength, hrows⟩

/-- The time that a machine runs in the first moments after each start. -/
def shifts : Definitions where
  matchers := [⟨"boot", .simple 3 []⟩, ⟨"start", .simple 1 []⟩, ⟨"stop", .simple 2 []⟩]
  metrics := [{ id := "time", measure := .duration "start" "stop" none false .sum, bucket := some ⟨10⟩,
                activations := [⟨"boot", ⟨5⟩, none⟩] }]

/-- An interval that runs with almost all of time between two starts of the machine: the program stops at the second
one, though some instants after each of them count. -/
theorem no_rows_after_long_rest : ∃ e, compile shifts {} = .ok e ∧ ∃ m ∈ e.metrics, ∃ t,
    m.plan.rule = .timed t ∧ t.aggregation = .sum ∧
    let calls := [Call.process { atom := 3, time := first }, .process { atom := 1, time := first + 2 },
      .process { atom := 3, time := last - 1 }]
    let up := m.isUp t e.matchers e.conditions (e.history m.plan.id calls) ⟨[]⟩
    (∀ c ∈ calls, Ordinary c) ∧ e.run! (calls ++ [.shutdown last]) = throw .overflow ∧
    up (first + 2) = true ∧ up (last - 1) = true ∧
    ((e.run (calls ++ [.shutdown last])).rows m.plan.id).map (fun r => (r.start, r.stop)) =
      [(first, first + 10), (last - 1, last)] := by
  have he : compile shifts {} = .ok _ := rfl
  have htimely : ∀ c ∈ [Call.process { atom := 3, time := first }, .process { atom := 1, time := first + 2 },
      .process { atom := 3, time := last - 1 }] ++ [.shutdown last], Timely c := by decide
  have hrun := run!_eq (.compiled he) (by decide) (fun c hc => (htimely c hc).inRange)
    (ends_of_timely htimely)
  refine ⟨_, he, _, .head _, _, rfl, rfl, by decide, ?_, by decide +kernel⟩
  rw [hrun, Checked.guard_eq_throw]
  decide +kernel

end EventMetrics.Engine
