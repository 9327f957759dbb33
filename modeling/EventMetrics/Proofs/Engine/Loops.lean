import EventMetrics.Proofs.Engine.Settled
import EventMetrics.Proofs.Metric.Loops

namespace EventMetrics

namespace Engine

open EventMetrics.Metric (Settled Paced)
open Instant (last)

variable {d : Definitions} {o : EngineOptions} {e : Engine} {reached : Int}

theorem kept_bounded : Metric.Kept (fun m => m.windows.Bounded) where
  start cs time h := by
    rw [Metric.start_windows]
    exact h
  absorb cs cs' ev hits u h := by
    rw [Metric.absorb_windows, Metric.advance_windows]
    exact h.onEvent ev.time hits
  advanceTo cs now h := by
    rw [Metric.advanceTo_windows]
    exact h
  shutdown cs now h := by
    rw [Metric.shutdown_windows]
    exact h

theorem Reachable.bounded (h : Reachable d o e) : ∀ m ∈ e.metrics, m.windows.Bounded :=
  h.forall_metrics kept_bounded fun m hm a ha x hx => by simp [hm.windows a ha] at hx

theorem Moves.inRange {c : Call} {e' : Engine} (h : Moves e reached c e') (hw : e.watermark = some reached)
    (hreached : Instant.InRange reached) (hc : c.InRange) : ∀ w, e'.watermark = some w → Instant.InRange w := by
  cases h with
  | late | behind =>
      intro w h
      cases hw.symm.trans h
      exact hreached
  | process ev =>
      rw [apply_watermark]
      rintro _ ⟨⟩
      exact hc
  | advanceTo now =>
      rintro _ ⟨⟩
      exact hc
  | shutdown now =>
      rintro _ ⟨⟩
      exact ⟨Int.le_trans hreached.1 (Int.le_max_right _ _), Int.max_le.2 ⟨hc.2, hreached.2⟩⟩

theorem reached_inRange (he : Reachable d o e) (ho : o.InRange) {time : Int} (ht : Instant.InRange time)
    (h : ∀ w, e.watermark = some w → Instant.InRange w) : Instant.InRange (e.ensureStarted time).2 := by
  cases hw : e.watermark with
  | some w =>
      rw [ensureStarted_of_some hw]
      exact h w hw
  | none =>
      rw [ensureStarted_of_none hw]
      cases hs : e.startTime with
      | none => exact ht
      | some s => exact ho s ((he.fresh hw).2.1 ▸ hs)

theorem Reachable.watermark_inRange (h : Reachable d o e) (ho : o.InRange) :
    ∀ w, e.watermark = some w → Instant.InRange w := by
  induction h with
  | compiled h =>
      obtain ⟨c, -, rfl⟩ := compile_eq_ok.1 h
      exact fun _ hw => by cases hw
  | @call e c he hc ih =>
      cases hclosed : e.closed with
      | true => exact (call_of_closed hclosed c).symm ▸ ih
      | false =>
          exact (call_moves hclosed c).inRange (ensureStarted_watermark e c.time) (reached_inRange he ho hc ih) hc
  | drain _ ih => exact ih

/-- An engine at an instant `reached`, between two calls. -/
structure Standing (e : Engine) (reached : Int) : Prop where
  inRange : Instant.InRange reached
  settled : ∀ m ∈ e.metrics, Settled reached m
  bounded : ∀ m ∈ e.metrics, m.windows.Bounded

theorem Reachable.standing (he : Reachable d o e) (ho : o.InRange) (hopen : e.closed = false) {time : Int}
    (ht : Instant.InRange time) : Standing (e.ensureStarted time).1 (e.ensureStarted time).2 where
  inRange := reached_inRange he ho ht (he.watermark_inRange ho)
  settled := settled_ensureStarted he ho ht fun _ hw => he.settled ho hopen hw
  bounded := by
    obtain ⟨f, hf, hkept⟩ := ensureStarted_metrics e time
    rw [hf]
    intro n hn
    obtain ⟨m, hm, rfl⟩ := List.mem_map.1 hn
    exact (hkept m).2 ▸ he.bounded m hm

namespace Standing

variable (h : Standing e reached)
include h

theorem paced : ∀ m ∈ e.metrics, Paced m := fun m hm => (h.settled m hm).toPlaced.paced

theorem advanceTo?_eq {now : Int} (hlast : now ≤ last) :
    e.metrics.mapM (·.advanceTo? e.conditions now) = some (e.metrics.map (·.advanceTo e.conditions now)) :=
  Option.mapM_eq_some_map fun m hm => by
    rw [Metric.advanceTo?, Metric.advance?_eq (h.paced m hm) hlast]
    rfl

theorem shutdown?_eq {now : Int} (hlast : now ≤ last) :
    e.metrics.mapM (·.shutdown? e.conditions now) = some (e.metrics.map (·.shutdown e.conditions now)) :=
  Option.mapM_eq_some_map fun m hm => by
    rw [Metric.shutdown?, Metric.advance?_eq (h.paced m hm) hlast]
    rfl

theorem take?_eq {ev : Event} (hlast : ev.time ≤ last) : e.take? ev =
    ((e.metrics.map (·.advance e.conditions ev.time false)).mapM fun r : Emitting Metric =>
      r.state.absorb? (e.condition ev).1 ev (e.matchers.judge ev) (e.condition ev).2).map
        (e.conclude ev (e.condition ev).1 (e.condition ev).2
          (e.metrics.map (·.advance e.conditions ev.time false))) := by
  have hadvance : e.metrics.mapM (·.advance? e.conditions ev.time false) =
      some (e.metrics.map (·.advance e.conditions ev.time false)) :=
    Option.mapM_eq_some_map fun m hm => Metric.advance?_eq (h.paced m hm) hlast
  rw [take?, hadvance, Option.map_eq_bind]
  rfl

theorem onTime_advance {m : Metric} (hm : m ∈ e.metrics) {ev : Event} (hle : reached ≤ ev.time)
    (hlast : ev.time ≤ last) : Metric.OnTime ev.time (m.advance e.conditions ev.time false).state :=
  ((h.settled m hm).advance e.conditions hle hlast).1

theorem take?_eq_some {ev : Event} (hle : reached ≤ ev.time) (hlast : ev.time ≤ last)
    (hends : ev.time = last → ∀ m ∈ e.metrics, m.plan.isBucketed = true → m.windows ≠ []) :
    e.take? ev = some (e.apply ev) := by
  rw [h.take?_eq hlast, Option.mapM_eq_some_map (g := fun r : Emitting Metric =>
    r.state.absorb (e.condition ev).1 ev (e.matchers.judge ev) (e.condition ev).2)]
  · rfl
  intro r hr
  obtain ⟨m, hm, rfl⟩ := List.mem_map.1 hr
  have ht := h.onTime_advance hm hle hlast
  have hwindows := Metric.advance_windows m e.conditions ev.time false
  refine Metric.absorb?_eq ev _ _ ht.toPlaced (.of_bounded ?_ hlast fun hend hb => ?_)
  · exact (hwindows ▸ h.bounded m hm).onEvent ev.time _
  · have hne := hends hend m hm (Metric.advance_plan m e.conditions ev.time false ▸ hb)
    simpa [Metric.watch, Activations.onEvent, hwindows] using hne

theorem take?_eq_none {ev : Event} (hle : reached ≤ ev.time) (hlast : ev.time = last) {m : Metric}
    (hm : m ∈ e.metrics) (hb : m.plan.isBucketed = true) (hw : m.windows = []) : e.take? ev = none := by
  rw [h.take?_eq (Int.le_of_eq hlast), Option.mapM_eq_none (List.mem_map_of_mem hm)]
  · rfl
  refine Metric.absorb?_eq_none ev _ _ (h.onTime_advance hm hle (Int.le_of_eq hlast)) hlast ?_ ?_
  · rwa [Metric.advance_plan]
  · rwa [Metric.advance_windows]

end Standing

section

variable (he : Reachable d o e) (ho : o.InRange)
include he ho

theorem process?_eq_some {ev : Event} (hev : Instant.InRange ev.time)
    (hends : e.closed = false → ev.time = last → ∀ m ∈ e.metrics, m.plan.isBucketed = true → m.windows ≠ []) :
    e.process? ev = some (e.process ev) := by
  cases hc : e.closed with
  | true => simp [process?, process, hc]
  | false =>
      have hstanding := he.standing ho hc hev
      simp only [process?, process, hc, Bool.false_eq_true, if_false]
      split
      · rfl
      · next hle =>
        refine hstanding.take?_eq_some (Int.not_lt.1 hle) hev.2 fun hlast => ?_
        obtain ⟨f, hf, hkept⟩ := ensureStarted_metrics e ev.time
        rw [hf]
        intro n hn hb
        obtain ⟨m, hm, rfl⟩ := List.mem_map.1 hn
        rw [(hkept m).2]
        exact hends hc hlast m hm ((hkept m).1 ▸ hb)

theorem process?_eq_none {ev : Event} (hc : e.closed = false) (hlast : ev.time = last) {m : Metric}
    (hm : m ∈ e.metrics) (hb : m.plan.isBucketed = true) (hw : m.windows = []) : e.process? ev = none := by
  have hev : Instant.InRange ev.time := hlast ▸ by decide
  have hstanding := he.standing ho hc hev
  obtain ⟨f, hf, hkept⟩ := ensureStarted_metrics e ev.time
  have hfm : f m ∈ (e.ensureStarted ev.time).1.metrics := hf ▸ List.mem_map_of_mem hm
  have hle : (e.ensureStarted ev.time).2 ≤ ev.time := Int.le_trans hstanding.inRange.2 (Int.le_of_eq hlast.symm)
  simp only [process?, hc, Bool.false_eq_true, if_false, Int.not_lt.2 hle]
  exact hstanding.take?_eq_none hle hlast hfm ((hkept m).1 ▸ hb) ((hkept m).2 ▸ hw)

theorem advanceTo?_eq {now : Int} (hnow : Instant.InRange now) : e.advanceTo? now = some (e.advanceTo now) := by
  cases hc : e.closed with
  | true => simp [advanceTo?, advanceTo, hc]
  | false =>
      simp only [advanceTo?, advanceTo, hc, Bool.false_eq_true, if_false]
      rw [(he.standing ho hc hnow).advanceTo?_eq hnow.2]
      split <;> rfl

theorem shutdown?_eq {now : Int} (hnow : Instant.InRange now) : e.shutdown? now = some (e.shutdown now) := by
  cases hc : e.closed with
  | true => simp [shutdown?, shutdown, hc]
  | false =>
      simp only [shutdown?, shutdown, hc, Bool.false_eq_true, if_false]
      have hstanding := he.standing ho hc hnow
      rw [hstanding.shutdown?_eq (Int.max_le.2 ⟨hnow.2, hstanding.inRange.2⟩)]
      rfl

/-- Calls end, and then give what they give without loops; only an event at the last instant does not,
if some metric has buckets and always records. Until then every timer leaves its metric further on. -/
theorem calls_end :
    (∀ ev : Event, Instant.InRange ev.time →
      (e.process? ev = none ↔ e.closed = false ∧ ev.time = last ∧
        ∃ m ∈ e.metrics, m.plan.isBucketed = true ∧ m.windows = []) ∧
      (e.process? ev = none ∨ e.process? ev = some (e.process ev))) ∧
    (∀ now, Instant.InRange now →
      e.advanceTo? now = some (e.advanceTo now) ∧ e.shutdown? now = some (e.shutdown now)) ∧
    (∀ m ∈ e.metrics, Paced m) ∧
    ∀ (m : Metric) (cs : Conditions) (limit : Int) (r : Emitting Metric), Paced m → limit ≤ last →
      m.tick cs limit false = some r → Paced r.state ∧ Metric.Progress m r.state := by
  refine ⟨fun ev hev => ?event, fun now hnow => ⟨advanceTo?_eq he ho hnow, shutdown?_eq he ho hnow⟩,
    fun m hm => (he.resting m hm).toPaced, fun m cs limit r hm hlimit ht => ?timer⟩
  case event =>
    by_cases hstuck : e.closed = false ∧ ev.time = last ∧
        ∃ m ∈ e.metrics, m.plan.isBucketed = true ∧ m.windows = []
    · obtain ⟨hc, hlast, m, hm, hb, hw⟩ := hstuck
      have hnone := process?_eq_none he ho hc hlast hm hb hw
      exact ⟨iff_of_true hnone ⟨hc, hlast, m, hm, hb, hw⟩, .inl hnone⟩
    · have hsome := process?_eq_some he ho hev fun hc hlast m hm hb hw => hstuck ⟨hc, hlast, m, hm, hb, hw⟩
      exact ⟨iff_of_false (by simp [hsome]) hstuck, .inr hsome⟩
  case timer => exact ⟨hm.tick ht, Metric.progress_tick hm hlimit ht⟩

end

/-- A visit at the last instant but one, and a tick and the end at the last. -/
theorem calls_end_doors : ∃ e, Reachable doors {} e ∧
    e.process? { atom := 1, time := last - 1 } = some (e.process { atom := 1, time := last - 1 }) ∧
    e.advanceTo? last = some (e.advanceTo last) ∧ e.shutdown? last = some (e.shutdown last) := by
  obtain ⟨e, he⟩ : ∃ e, compile doors {} = .ok e := ⟨_, rfl⟩
  have hreach : Reachable doors {} e := .compiled he
  obtain ⟨hprocess, hrest, -⟩ := calls_end hreach (by decide)
  obtain ⟨hadvance, hshutdown⟩ := hrest last (by decide)
  obtain ⟨hnone, hsome⟩ := hprocess { atom := 1, time := last - 1 } (by decide)
  refine ⟨e, hreach, hsome.resolve_left fun h => ?_, hadvance, hshutdown⟩
  exact absurd (hnone.1 h).2.1 (by decide)

/-- A visit at the last instant never comes to an end. -/
theorem visit_at_last_never_ends : ∃ e, compile doors {} = .ok e ∧
    e.process? { atom := 1, time := last } = none := by
  obtain ⟨e, he, hopen, m, hm, hb, hw⟩ : ∃ e, compile doors {} = .ok e ∧ e.closed = false ∧
      ∃ m ∈ e.metrics, m.plan.isBucketed = true ∧ m.windows = [] := ⟨_, rfl, rfl, by decide +kernel⟩
  exact ⟨e, he, process?_eq_none (.compiled he) (by decide) hopen rfl hm hb hw⟩

end Engine

end EventMetrics
