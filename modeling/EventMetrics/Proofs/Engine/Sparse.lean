import EventMetrics.Proofs.Engine.Checked
import EventMetrics.Proofs.Metric.Sparse

namespace EventMetrics.Engine

open EventMetrics.Metric (Life)
open Record (Past IsOpenAt bucketsOf)
open Instant (last)

variable {e : Engine} {d : Definitions} {o : EngineOptions}

/-- If no number leaves its word, a run comes to an end, and a row of a metric that takes sparse maxima tells the
longest of some spells of its key, and how many they are: those for which some time counts and after which its bucket
is the first to end. The bucket that is open at the shutdown, as a tick would leave it, also has the spell that is
then open. Each spell is in one row, or in none if no bucket ends after it. So it is in the bucket that is open at its
end, if one is, and without windows one always is. -/
theorem rows_of_spells (h : compile d o = .ok e) (ho : o.InRange) {m : Metric} (hm : m ∈ e.metrics) {t : Timing}
    (hrule : m.plan.rule = .timed t) (hmax : t.aggregation = .maxSparse) {calls : List Call}
    (hcalls : ∀ c ∈ calls, Ordinary c) {now : Int} (hnow : Instant.InRange now)
    (hrun : e.run! (calls ++ [.shutdown now]) ≠ throw .overflow) {k : DimensionKey}
    (hsteady : (m.course t e.matchers (e.history m.plan.id calls) k).steady = true) :
    ∃ final stop, e.run! (calls ++ [.shutdown now]) = pure final ∧ final.watermark = some stop ∧
      let spells := m.course t e.matchers (e.history m.plan.id calls) k
      let on := m.isOn e.matchers e.conditions (e.history m.plan.id calls)
      let records := final.queue.filter (·.metric = m.plan.id)
      let closing := ((e.run calls).advanceTo stop).openSlot m.plan.id
      (∀ r ∈ bucketsOf k records, r.Tells ((spells.endings on).filter (r.Credits m.grid.size records ·.time) ++
        if closing.any (r.start = ·.start) then spells.still on stop else [])) ∧
      (∀ x ∈ spells.endings on, ¬ (closing = none ∧ Past records x.time) →
        (bucketsOf k records).countP (·.Credits m.grid.size records x.time) = 1) ∧
      (∀ slot, closing = some slot → spells.still on stop ≠ [] →
        (bucketsOf k records).countP (·.start = slot.start) = 1) ∧
      (∀ r ∈ bucketsOf k records, ∀ i, r.Credits m.grid.size records i → IsOpenAt records closing i → r.start ≤ i) ∧
      (m.windows = [] → closing ≠ none ∧ ∀ x ∈ spells.endings on, IsOpenAt records closing x.time) := by
  obtain ⟨cs, n, τ, stop, rs, hτ, -, hlast, hrange, hlife, hmark, -, hqueue, hslot⟩ :=
    shutdown_finds h ho hm hcalls hnow
  obtain ⟨hon, hcrediting⟩ := hlife.crediting (compile_fresh h m hm) hrule hmax (compile_wellFormed h) hrange hsteady
  have hconcluded := hcrediting.shutdown hon hmax hτ hlast
  have hopen := hcrediting.isOpenAt hon hτ hlast
  rw [← hqueue, ← hslot] at hconcluded hopen
  refine ⟨_, stop, shutdown!_of_ordinary (.compiled h) ho hcalls hnow hrun, hmark, ?_⟩
  exact ⟨hconcluded.credited.exact, hconcluded.credited.once, hconcluded.row,
    fun r hr i hcredits => hconcluded.start_le hr hcredits, hopen⟩

/-- The longest time in the first moments after each start of a machine. -/
def wakes : Definitions where
  matchers := [⟨"boot", .simple 3 []⟩, ⟨"start", .simple 1 []⟩, ⟨"stop", .simple 2 []⟩]
  metrics := [{ id := "longest", measure := .duration "start" "stop" none false .maxSparse, bucket := some ⟨10⟩,
                activations := [⟨"boot", ⟨5⟩, none⟩] }]

def nap : List Call := [.process { atom := 3, time := 0 }, .process { atom := 1, time := 2 },
  .process { atom := 2, time := 12 }, .process { atom := 3, time := 20 }]

theorem rows_of_spells_wakes : ∃ e m t final, compile wakes { start := some 0 } = .ok e ∧ m ∈ e.metrics ∧
    m.plan.rule = .timed t ∧ t.aggregation = .maxSparse ∧ (∀ c ∈ nap, Ordinary c) ∧ Instant.InRange 30 ∧
    e.run! (nap ++ [.shutdown 30]) ≠ throw .overflow ∧
    (m.course t e.matchers (e.history m.plan.id nap) ⟨[]⟩).steady = true ∧
    e.run! (nap ++ [.shutdown 30]) = pure final ∧
    ∀ x ∈ (m.course t e.matchers (e.history m.plan.id nap) ⟨[]⟩).endings
        (m.isOn e.matchers e.conditions (e.history m.plan.id nap)),
      (bucketsOf ⟨[]⟩ (final.queue.filter (·.metric = m.plan.id))).countP
        (·.Credits m.grid.size (final.queue.filter (·.metric = m.plan.id)) x.time) = 1 := by
  have hcalls : ∀ c ∈ nap, Ordinary c := by decide
  obtain ⟨e, he, m, hm, t, hrule, hmax, hfits, hplain, hslot⟩ :
      ∃ e, compile wakes { start := some 0 } = .ok e ∧ ∃ m ∈ e.metrics, ∃ t, m.plan.rule = .timed t ∧
        t.aggregation = .maxSparse ∧ e.runFits (nap ++ [.shutdown 30]) = true ∧ m.plan.isLinked = false ∧
        ((e.run nap).advanceTo 30).openSlot m.plan.id ≠ none ∧ ((e.run nap).shutdown 30).watermark = some 30 :=
    ⟨_, rfl, _, .head _, _, rfl, rfl, by decide +kernel⟩
  have hsteady := Metric.steady_of_not_isLinked hplain t e.matchers (e.history m.plan.id nap) ⟨[]⟩
  have hstart : EngineOptions.InRange { start := some 0 } := by decide
  have htimely : ∀ c ∈ nap ++ [.shutdown 30], Timely c := by decide
  have hrun : e.run! (nap ++ [.shutdown 30]) = pure ((e.run nap).shutdown 30) :=
    run!_of_timely (.compiled he) hstart htimely hfits
  have hne : e.run! (nap ++ [.shutdown 30]) ≠ throw .overflow := hrun ▸ (Checked.throw_ne_pure ·.symm)
  obtain ⟨final, stop, hfinal, hmark, -, honce, -⟩ :=
    rows_of_spells he hstart hm hrule hmax hcalls (by decide) hne hsteady
  obtain rfl := Checked.pure_inj.1 (hrun.symm.trans hfinal)
  obtain rfl := Option.some.inj (hslot.2.symm.trans hmark)
  exact ⟨e, m, t, _, he, hm, hrule, hmax, hcalls, by decide, hne, hsteady, hfinal,
    fun x hx => honce x hx fun hnone => hslot.1 hnone.1⟩

/-- The interval ends while no bucket is open, and the bucket from 20 to 30 counts it. -/
theorem late_row_wakes : ∃ e final, compile wakes { start := some 0 } = .ok e ∧
    e.run! (nap ++ [.shutdown 30]) = pure final ∧ ∃ m ∈ e.metrics, ∃ t,
      m.plan.rule = .timed t ∧ t.aggregation = .maxSparse ∧
      (m.course t e.matchers (e.history m.plan.id nap) ⟨[]⟩).endings
        (m.isOn e.matchers e.conditions (e.history m.plan.id nap)) = [⟨12, 3⟩] ∧
      ∃ r ∈ bucketsOf ⟨[]⟩ (final.queue.filter (·.metric = m.plan.id)), r.start = 20 ∧ r.stop = 30 ∧ r.samples = 1 := by
  obtain ⟨e, he, hfits, hrow⟩ : ∃ e, compile wakes { start := some 0 } = .ok e ∧
      e.runFits (nap ++ [.shutdown 30]) = true ∧ ∃ m ∈ e.metrics, ∃ t,
        m.plan.rule = .timed t ∧ t.aggregation = .maxSparse ∧
        (m.course t e.matchers (e.history m.plan.id nap) ⟨[]⟩).endings
          (m.isOn e.matchers e.conditions (e.history m.plan.id nap)) = [⟨12, 3⟩] ∧
        ∃ r ∈ bucketsOf ⟨[]⟩ ((e.run (nap ++ [.shutdown 30])).queue.filter (·.metric = m.plan.id)),
          r.start = 20 ∧ r.stop = 30 ∧ r.samples = 1 :=
    ⟨_, rfl, by decide +kernel, _, .head _, _, rfl, rfl, by decide +kernel⟩
  have hstart : EngineOptions.InRange { start := some 0 } := by decide
  exact ⟨e, _, he, run!_of_timely (.compiled he) hstart (by decide) hfits, hrow⟩

end EventMetrics.Engine
