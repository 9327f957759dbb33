import EventMetrics.Proofs.Engine.Checked
import EventMetrics.Proofs.Metric.Fed

namespace EventMetrics

open Alert (Orderly Rising)
open Ended (feedings feedAll reportAll)
open Instant (first last)

namespace Metric.Fed

variable {m₀ m : Metric} {s : Int} {bs : List Ended} {rs : List Record}

theorem later (h : Fed m₀ s (bs.map (·.slot)) bs m rs) : bs.Pairwise fun b c => b.stop ≤ c.stop := by
  have : Trans (fun b c : Ended => b.stop ≤ c.stop) (fun b c : Ended => b.stop ≤ c.stop)
      (fun b c : Ended => b.stop ≤ c.stop) := ⟨Int.le_trans⟩
  have hfollows := List.IsChain.iff_mem.1 ((List.isChain_map Ended.slot).1 h.numbered.follows)
  refine (hfollows.imp fun b c ⟨hb, hc, hnext⟩ => ?_).pairwise
  exact Int.le_trans (h.inside b hb).2 (Int.le_trans hnext.start (h.inside c hc).1)

theorem apart_feedings (h : Fed m₀ s (bs.map (·.slot)) bs m rs) : ∀ f ∈ feedings bs, Alert.Apart f.rows := by
  intro f hf
  obtain ⟨b, hb, rfl⟩ := List.mem_map.1 hf
  exact List.pairwise_map.2 (h.apart b (List.mem_filter.1 hb).1)

theorem orderly (h : Fed m₀ s (bs.map (·.slot)) bs m rs) : Orderly (feedings bs) where
  rising := by
    have hrising := (List.pairwise_map (f := Ended.slot)).1 h.numbered.rising
    exact List.pairwise_map.2 (hrising.filter _)
  later := List.pairwise_map.2 (h.later.filter _)
  apart := h.apart_feedings

end Metric.Fed

namespace Engine

variable {d : Definitions} {o : EngineOptions} {e final : Engine} {calls : List Call} {m : Metric}

theorem compile_last (h : compile d o = .ok e) : ∀ m ∈ e.metrics, m.grid.last = none := by
  obtain ⟨c, hc, rfl⟩ := compile_eq_ok.1 h
  obtain ⟨-, -, -, -, -, -, hmetrics⟩ := Definitions.compile_eq_ok.1 hc
  intro m hm
  obtain ⟨dm, -, hdm⟩ := Check.exists_of_mem_right hmetrics hm
  obtain ⟨windows, rule, gate, -, -, -, -, -, rfl⟩ := Metric.compile_eq_ok.1 hdm
  rfl

/-- What has become of a metric after a run that ends. -/
theorem fed_run (h : compile d o = .ok e) (ho : o.InRange) (hm : m ∈ e.metrics) (hcalls : ∀ c ∈ calls, c.InRange)
    (hends : e.Ends calls) : ∃ m', (e.run calls).metrics.filter (·.plan.id = m.plan.id) = [m'] ∧
      ∃ bs : List Ended, m.Fed (e.startOf calls 0) (bs.map (·.slot)) bs m'
        ((e.run calls).queue.filter (·.metric = m.plan.id)) := by
  exact steady_run (Metric.Feeds.steady e.matchers m (e.startOf calls 0)) (Metric.Feeds.leaves m (e.startOf calls 0))
    h ho hm hcalls hends ⟨[], .fresh m _⟩
    fun hs => ⟨[], .start (compile_fresh h m hm) (compile_last h m hm) hs e.conditions⟩

/-- In a run that comes to an end without a fault, the buckets of a metric end one after another. Of each that has
rows these are reported, the trackers of the metric are fed with it once, and the alerts that they fire are reported.
What trackers are fed with is in order: numbers rise, time does not go back, and no key has two rows. The first bucket
has the number zero. Without windows the number is that of the sizes since the start. Each bucket counts the one
before it and the whole sizes between the two. -/
theorem trackers_fed_in_order (h : compile d o = .ok e) (ho : o.InRange) (hm : m ∈ e.metrics)
    (hcalls : ∀ c ∈ calls, c.InRange) (hrun : e.run! calls = pure final) :
    let records := final.queue.filter (·.metric = m.plan.id)
    let s := e.startOf calls 0
    let size := m.grid.size
    ∃ bs : List Ended, (∀ i, Record.Lays size i records ↔ ∃ b ∈ bs, b.slot.start = i) ∧
      Record.flushed records = reportAll m m.trackers bs ∧
      (∃ m', final.metrics.filter (·.plan.id = m.plan.id) = [m'] ∧ m'.trackers = feedAll m.trackers bs) ∧
      Orderly (feedings bs) ∧
      (∀ b ∈ bs, b.slot.stop = Instant.after b.slot.start size ∧ b.slot.start ≤ b.stop ∧ b.stop ≤ b.slot.stop) ∧
      (∀ b ∈ bs.head?, b.slot.num = 0) ∧
      (m.windows = [] → ∀ b ∈ bs, b.slot.start = s + b.slot.num * size ∧ b.slot.num = (b.slot.start - s) / size) ∧
      bs.IsChain fun b c => b.slot.stop ≤ c.slot.start ∧
        (c.slot.num : Int) = b.slot.num + 1 + (c.slot.start - b.slot.stop) / size := by
  intro records s size
  obtain ⟨hends, -, rfl⟩ := (run!_eq_pure (.compiled h) ho hcalls).1 hrun
  obtain ⟨m', halone, bs, hfed⟩ := fed_run h ho hm hcalls hends
  have hnumbered := hfed.numbered
  refine ⟨bs, hfed.lays, hfed.records, ⟨m', halone, hfed.trackers⟩, hfed.orderly, fun b hb => ?sized,
    fun b hb => ?zero, fun hw b hb => ?free, ?counts⟩
  case sized => exact ⟨(hnumbered.sized _ (List.mem_map_of_mem hb)).stop, hfed.inside b hb⟩
  case zero => exact hnumbered.zero _ (by rw [List.head?_map, hb]; rfl)
  case free =>
    have hstart : b.slot.start = s + b.slot.num * size :=
      hnumbered.start_eq (hfed.unbroken hw) _ (List.mem_map_of_mem hb)
    have hpos : 0 < size := (hnumbered.sized _ (List.mem_map_of_mem hb)).pos
    refine ⟨hstart, ?_⟩
    rw [hstart, add_sub_cancel_left, Int.mul_ediv_cancel _ (Int.ne_of_gt hpos)]
  case counts => exact ((List.isChain_map Ended.slot).1 hnumbered.counts).imp fun b c h => ⟨h.start, h.num⟩

/-- The doors, with an alert when a minute and the one before it see more than three visits. -/
def busyDoors : Definitions :=
  { doors with alerts := [{ id := "busy", metric := "visits", numBuckets := 2, threshold := 3 }] }

/-- Two visits, two minutes apart. -/
theorem trackers_fed_in_order_doors : ∃ e m final, compile busyDoors {} = .ok e ∧ m ∈ e.metrics ∧
    m.trackers.length = 1 ∧
    let calls := [Call.process { atom := 1, time := 5 }, .process { atom := 1, time := 120000000000 }]
    (∀ c ∈ calls, c.InRange) ∧ e.run! calls = pure final ∧
    ∃ bs : List Ended, Record.flushed (final.queue.filter (·.metric = m.plan.id)) = reportAll m m.trackers bs ∧
      (∀ b ∈ bs, b.slot.num = (b.slot.start - 5) / m.grid.size) ∧ Orderly (feedings bs) := by
  have he : compile busyDoors {} = .ok _ := rfl
  have htimely : ∀ c ∈ [Call.process { atom := 1, time := 5 }, .process { atom := 1, time := 120000000000 }],
      Timely c := by
    simp only [List.mem_cons, List.not_mem_nil, or_false, forall_eq_or_imp, forall_eq]
    exact ⟨⟨by decide, by decide⟩, by decide, by decide⟩
  have hcalls := fun c hc => (htimely c hc).inRange
  have hrun := run!_of_timely (.compiled he) (by decide) htimely (by decide +kernel)
  obtain ⟨bs, -, hrecords, -, horderly, -, -, hfree, -⟩ :=
    trackers_fed_in_order he (by decide) (.head _) hcalls hrun
  exact ⟨_, _, _, he, .head _, rfl, hcalls, hrun, bs, hrecords, fun b hb => (hfree rfl b hb).2, horderly⟩

def loudBoots : Definitions :=
  { boots with alerts := [{ id := "seen", metric := "visits", numBuckets := 1, threshold := 0 }] }

/-- Two starts with almost all of time between them: further apart than a word can say, so that the program stops
where the second bucket gets its number. It has room for `1844674407370955160` sizes between the two. -/
theorem no_number_after_long_rest : ∃ e, compile loudBoots {} = .ok e ∧
    let calls := [Call.process { atom := 3, time := first }, .process { atom := 3, time := last - 1 }, .shutdown last]
    e.run! calls = throw .overflow ∧
    ∃ m ∈ (e.run calls).metrics, m.trackers.length = 1 ∧ m.turnover.buckets = 2 ∧
      m.grid.last = some ⟨last - 1, last, 1844674407370955161⟩ := by
  have he : compile loudBoots {} = .ok _ := rfl
  have htimely : ∀ c ∈ [Call.process { atom := 3, time := first }, .process { atom := 3, time := last - 1 },
      .shutdown last], Timely c := by
    simp only [List.mem_cons, List.not_mem_nil, or_false, forall_eq_or_imp, forall_eq]
    exact ⟨⟨by decide, by decide⟩, ⟨by decide, by decide⟩, by decide⟩
  have hrun := run!_eq (.compiled he) (by decide) (fun c hc => (htimely c hc).inRange)
    (ends_of_timely htimely)
  refine ⟨_, he, ?_, by decide +kernel⟩
  rw [hrun, Checked.guard_eq_throw]
  decide +kernel

end Engine

end EventMetrics
