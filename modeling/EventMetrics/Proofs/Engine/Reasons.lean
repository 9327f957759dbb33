import EventMetrics.Proofs.Engine.Feeding
import EventMetrics.Proofs.Engine.Gates
import EventMetrics.Proofs.Engine.Verdicts
import EventMetrics.Proofs.Metric.Reasons

namespace EventMetrics.Engine

open EventMetrics.Metric (Reasons Feeds)
open Record (HasSlot mem_gaps)

variable {d : Definitions} {o : EngineOptions} {e final : Engine} {calls : List Call} {m : Metric}
  {g : Record.Skipped} {i : Int}

/-- In any run that ends, an empty bucket is reported with the reason that the condition was unknown just when at
least one sample that came to it, while the metric was active, was dropped for that. -/
theorem skip_reason_iff (h : compile d o = .ok e) (ho : o.InRange) (hm : m ∈ e.metrics)
    (hcalls : ∀ c ∈ calls, c.InRange) (hrun : e.run? calls = some final) (hg : .skipped g ∈ final.queue)
    (hid : g.metric = m.plan.id) (hi : HasSlot m.grid.size i (.skipped g)) :
    g.reason = .conditionUnknown ↔ ∃ w ∈ e.works m.plan.id calls,
      (w.isSample = true ∧ w.outcome? = some (.dropped .conditionUnknown)) ∧ w.In m.grid.size i := by
  obtain ⟨hends, rfl⟩ := (run?_eq_some (.compiled h) ho hcalls).1 hrun
  have hfresh := compile_fresh h m hm
  obtain ⟨m', -, hskips⟩ := logged_run (Reasons.logged e.matchers m (e.startOf calls 0)) (Reasons.settles m _) h ho hm
    hcalls hends (by simp [Metric.Skips]) fun hs => ⟨⟨[], .start hfresh (compile_last h m hm) hs e.conditions⟩,
      .start (hfresh.placed hs) hfresh.current hfresh.pending (compile_unseen h m hm).2 e.conditions⟩
  exact hskips g (List.mem_filter.2 ⟨hg, decide_eq_true hid⟩) i hi

def lobby : Definitions :=
  { guests with
    conditions := [⟨"light", .simple { start := "lit", stop := "dark", dimensions := ["room"] }⟩]
    metrics := [{ id := "visits", measure := .count "enter", bucket := some ⟨100⟩, condition := some "light",
                  links := [⟨"room", "room"⟩] }] }

def dusk : Event := { light with atom := 2, time := 10 }

def evening : List Call :=
  [.process light, .process dusk, .process (enter "hall" 20), .process (enter "attic" 30), .shutdown 100]

theorem skip_reason_iff_evening : ∃ e m final, compile lobby {} = .ok e ∧ m ∈ e.metrics ∧
    (∀ c ∈ evening, c.InRange) ∧ e.run? evening = some final ∧
    ∃ g, .skipped g ∈ final.queue ∧ g.metric = m.plan.id ∧ HasSlot m.grid.size 0 (.skipped g) ∧
      g.reason = .conditionUnknown ∧ ∃ w ∈ e.works m.plan.id evening,
        (w.isSample = true ∧ w.outcome? = some (.dropped .conditionUnknown)) ∧ w.In m.grid.size 0 := by
  obtain ⟨e, m, he, hm, hid, hmem⟩ : ∃ e m, compile lobby {} = .ok e ∧ m ∈ e.metrics ∧ "visits" = m.plan.id ∧
      ⟨"visits", 0, 100, 1, .conditionUnknown⟩ ∈ Record.gaps (e.run evening).queue :=
    ⟨_, _, rfl, .head _, rfl, by decide +kernel⟩
  have ho : EngineOptions.InRange {} := by decide
  have htimely : ∀ c ∈ evening, Timely c := by decide
  have hcalls := fun c hc => (htimely c hc).inRange
  have hrun := (run?_eq_some (.compiled he) ho hcalls).2 ⟨ends_of_timely htimely, rfl⟩
  have hg := mem_gaps.1 hmem
  have hi : HasSlot m.grid.size 0 (.skipped ⟨"visits", 0, 100, 1, .conditionUnknown⟩) :=
    Record.hasSlot_skipped.2 ⟨0, by decide, by simp⟩
  exact ⟨e, m, _, he, hm, hcalls, hrun, _, hg, hid, hi, rfl, (skip_reason_iff he ho hm hcalls hrun hg hid hi).1 rfl⟩

/-- One of the two visits is excluded because the light is known to be off; all the same the empty bucket is
reported as one in which the condition was unknown for all that came. -/
theorem reason_hides_known_sample : ∃ e, compile lobby {} = .ok e ∧
    (∃ g ∈ Record.gaps (e.run evening).queue, g = ⟨"visits", 0, 100, 1, .conditionUnknown⟩) ∧
    ∃ w ∈ e.works "visits" evening, w.isSample = true ∧ w.In 100 0 ∧ w.outcome? = some .ignored := by
  refine ⟨_, rfl, ?_⟩
  decide +kernel

end EventMetrics.Engine
