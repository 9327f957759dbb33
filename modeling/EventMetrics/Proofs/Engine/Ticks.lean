import EventMetrics.Proofs.Engine.Sync

namespace EventMetrics

namespace Metric

open Record (Agree)

variable {rs rs' : List Record} {m m' : Metric} {now limit : Int}

theorem Tally.advance_ticked (cs : Conditions) (h : Tally rs rs' m m') (hm : Paced m) (hnow : now ≤ limit)
    (hlimit : limit ≤ Instant.last) :
    Tally (rs ++ (m.advance cs limit false).records)
      (rs' ++ ((m'.advanceTo cs now).andThen (·.advance cs limit false)).records)
      (m.advance cs limit false).state ((m'.advanceTo cs now).andThen (·.advance cs limit false)).state := by
  refine h.advance_through cs hm now limit false false (fun d hd => ?_) fun d hd => due_false.2 ?_ <;>
    (have hlt := due_false.1 hd; omega)

theorem Tally.shutdown_ticked (cs : Conditions) (h : Tally rs rs' m m') (hm : Paced m) (hnow : now ≤ limit)
    (hlimit : limit ≤ Instant.last) :
    Tally (rs ++ (m.shutdown cs limit).records)
      (rs' ++ ((m'.advanceTo cs now).andThen (·.shutdown cs limit)).records)
      (m.shutdown cs limit).state ((m'.advanceTo cs now).andThen (·.shutdown cs limit)).state := by
  have ht := ((h.advance_ticked cs hm hnow hlimit).closeAt limit).flushPending
  simpa only [Metric.shutdown, Emitting.andThen_state, Emitting.andThen_records, List.append_assoc] using ht

structure Resting (m : Metric) : Prop extends Paced m where
  pending : m.pending = none

theorem kept_resting : Kept Resting where
  start cs time h := ⟨h.toPaced.start cs time, (start_pending _ cs time).trans h.pending⟩
  absorb _ _ ev hits u h := ⟨(h.toPaced.advance _ ev.time false).absorb _ ev hits u, flushPending_pending _⟩
  advanceTo _ now h := ⟨h.toPaced.advanceTo _ now, flushPending_pending _⟩
  shutdown _ now h := ⟨h.toPaced.shutdown _ now, flushPending_pending _⟩

end Metric

namespace Engine

open EventMetrics.Metric (Resting)
open Record (Agree reports gaps)

variable {e : Engine} {d : Definitions} {o : EngineOptions} {now : Int}

def Dated (e : Engine) : Prop := e.startTime.isSome = true ∨ e.watermark.isSome = true

theorem Dated.ensureStarted (h : e.Dated) (s t : Int) : e.ensureStarted s = e.ensureStarted t := by
  cases hw : e.watermark with
  | some w => rw [ensureStarted_of_some hw, ensureStarted_of_some hw]
  | none =>
      have hstart : e.startTime.getD s = e.startTime.getD t := by
        cases hs : e.startTime with
        | none => simp [Dated, hw, hs] at h
        | some s => rfl
      rw [ensureStarted_of_none hw, ensureStarted_of_none hw, hstart]

theorem resting_start (he : ∀ m ∈ e.metrics, Resting m) (t : Int) :
    ∀ m ∈ (e.ensureStarted t).1.metrics, Resting m :=
  forall_metrics_start Metric.kept_resting he t

/-- A tick before an event changes nothing but when empty buckets are reported. -/
theorem process_ticked (he : ∀ m ∈ e.metrics, Resting m) (hd : e.Dated) {ev : Event} (hnow : now ≤ ev.time)
    (hlast : ev.time ≤ Instant.last) :
    Sync (e.process ev).1 ((e.advanceTo now).process ev).1 ∧
      (e.process ev).2 = ((e.advanceTo now).process ev).2 := by
  cases hc : e.closed with
  | true =>
      have hadvance : e.advanceTo now = e := call_of_closed hc (.advanceTo now)
      rw [hadvance]
      exact ⟨.refl _, rfl⟩
  | false =>
      have hmark := ensureStarted_watermark e now
      have hclosed := (ensureStarted_closed e now).trans hc
      have hrest := resting_start he now
      -- the start is settled: a tick starts the engine where the event would
      rw [advanceTo_eq hc, ← process_started hc, hd.ensureStarted ev.time now]
      revert hmark hclosed hrest
      generalize e.ensureStarted now = s
      intro hmark hclosed hrest
      split
      next => exact ⟨.refl _, rfl⟩
      next hreached =>
        have hticked : (s.1.each (·.advanceTo s.1.conditions now) now).closed = false := hclosed
        rw [process_eq hclosed, process_eq hticked, ensureStarted_of_some hmark,
          ensureStarted_of_some (w := now) rfl, if_neg (by omega), if_neg (by omega)]
        have hsync := (Sync.refl s.1).each_each (·.advance s.1.conditions ev.time false)
          (·.advance s.1.conditions ev.time false) (·.advanceTo s.1.conditions now) now
          ev.time fun rs rs' m m' hm ht => ht.advance_ticked _ (hrest m hm).toPaced hnow hlast
        exact Sync.hear (hsync.reframe (congrArg (fun e : Engine => e.learn ev) hsync.frame :)
          rfl rfl rfl rfl) rfl

theorem shutdown_ticked (he : ∀ m ∈ e.metrics, Resting m) (hd : e.Dated) {t : Int} (hnow : now ≤ t)
    (hlast : t ≤ Instant.last) : Sync (e.shutdown t) ((e.advanceTo now).shutdown t) := by
  cases hc : e.closed with
  | true =>
      have hadvance : e.advanceTo now = e := call_of_closed hc (.advanceTo now)
      rw [hadvance]
      exact .refl _
  | false =>
      have hstarted : (e.ensureStarted t).1.shutdown t = e.shutdown t := call_started hc (.shutdown t)
      have hmark := ensureStarted_watermark e now
      have hclosed := (ensureStarted_closed e now).trans hc
      have hrest := resting_start he now
      rw [advanceTo_eq hc, ← hstarted, hd.ensureStarted t now]
      revert hmark hclosed hrest
      generalize e.ensureStarted now = s
      intro hmark hclosed hrest
      split
      next => exact .refl _
      next hreached =>
        have hticked : (s.1.each (·.advanceTo s.1.conditions now) now).closed = false := hclosed
        rw [shutdown_eq hclosed, shutdown_eq hticked, ensureStarted_of_some hmark,
          ensureStarted_of_some (w := now) rfl]
        have hmax : max t s.2 = t ∧ max t now = t := by omega
        dsimp only
        rw [hmax.1, hmax.2]
        have hsync := (Sync.refl s.1).each_each (·.shutdown s.1.conditions t)
          (·.shutdown s.1.conditions t) (·.advanceTo s.1.conditions now) now
          t fun rs rs' m m' hm ht => ht.shutdown_ticked _ (hrest m hm).toPaced hnow hlast
        exact hsync.reframe (congrArg (fun e : Engine => { e with closed := true }) hsync.frame :)
          rfl rfl rfl rfl

/-- The second calls are the first with ticks among them, each of them not after the call that it
comes before. -/
inductive Ticked : List Call → List Call → Prop
  | nil : Ticked [] []
  | process {calls ticked} (ev : Event) : Ticked calls ticked →
      Ticked (.process ev :: calls) (.process ev :: ticked)
  | shutdown {calls ticked} (now : Int) : Ticked calls ticked →
      Ticked (.shutdown now :: calls) (.shutdown now :: ticked)
  | tick {c calls ticked} (now : Int) : now ≤ c.time → Ticked (c :: calls) ticked →
      Ticked (c :: calls) (.advanceTo now :: ticked)

theorem Ticked.head {c : Call} {calls ticked : List Call} (h : Ticked (c :: calls) ticked) :
    (∃ ev, c = .process ev) ∨ ∃ now, c = .shutdown now := by
  generalize hcs : c :: calls = cs at h
  induction h with
  | nil => cases hcs
  | process ev _ _ => cases hcs; exact .inl ⟨ev, rfl⟩
  | shutdown now _ _ => cases hcs; exact .inr ⟨now, rfl⟩
  | tick now _ _ ih => exact ih hcs

theorem resting_call (he : ∀ m ∈ e.metrics, Resting m) (c : Call) : ∀ m ∈ (e.call c).metrics, Resting m :=
  forall_metrics_call Metric.kept_resting he c

theorem resting_run (he : ∀ m ∈ e.metrics, Resting m) (calls : List Call) :
    ∀ m ∈ (e.run calls).metrics, Resting m := by
  induction calls generalizing e with
  | nil => exact he
  | cons c calls ih => exact ih (resting_call he c)

theorem Dated.call (h : e.Dated) (c : Call) : (e.call c).Dated := by
  cases hc : e.closed with
  | true => rwa [call_of_closed hc]
  | false =>
      right
      have hmark := ensureStarted_watermark e c.time
      cases c with
      | process ev =>
          rw [Engine.call, process_eq hc]
          split
          · exact hmark ▸ rfl
          · rw [apply_eq]
            rfl
      | advanceTo now =>
          rw [Engine.call, advanceTo_eq hc]
          split
          · exact hmark ▸ rfl
          · rfl
      | shutdown now =>
          rw [Engine.call, shutdown_eq hc]
          rfl

/-- Between calls nothing is owed, and a single metric has all the records. -/
theorem Sync.agree {e' : Engine} (h : Sync e e') (he : ∀ m ∈ e.metrics, Resting m)
    (he' : ∀ m ∈ e'.metrics, Resting m) (hl : e.metrics.length ≤ 1) : Agree e.queue e'.queue := by
  have hlength := h.copies.length_eq
  match hm : e.metrics, hm' : e'.metrics with
  | [], _ => exact h.idle hm
  | [m], [m'] =>
      have hbooks := (h.alone m m' hm hm').books
      simpa [Metric.owed, (he m (by simp [hm])).pending, (he' m' (by simp [hm'])).pending] using hbooks
  | [m], [] | [m], _ :: _ :: _ => simp [hm, hm'] at hlength
  | _ :: _ :: _, _ => simp [hm] at hl

theorem length_metrics_call (e : Engine) (c : Call) : (e.call c).metrics.length = e.metrics.length := by
  obtain ⟨f, hf, -⟩ := keeps_call e c
  rw [hf, List.length_map]

theorem length_metrics_run (e : Engine) (calls : List Call) : (e.run calls).metrics.length = e.metrics.length := by
  induction calls generalizing e with
  | nil => rfl
  | cons c calls ih => exact (ih (e.call c)).trans (length_metrics_call e c)

/-- Ticks change no answer, and nothing that a single metric reports. -/
theorem Ticked.alike {calls ticked : List Call} (h : Ticked calls ticked)
    (hlast : ∀ c ∈ calls, c.time ≤ Instant.last) (he : ∀ m ∈ e.metrics, Resting m) (hd : e.Dated) :
    e.answers calls = e.answers ticked ∧
      (e.metrics.length ≤ 1 → Agree (e.run calls).queue (e.run ticked).queue) := by
  -- only at a tick do two engines differ, until the call that it comes before
  induction h generalizing e with
  | nil => exact ⟨rfl, fun _ => .rfl⟩
  | process ev _ ih =>
      obtain ⟨ha, hq⟩ := ih (fun c hc => hlast c (List.mem_cons_of_mem _ hc)) (resting_call he (.process ev))
        (hd.call (.process ev))
      exact ⟨congrArg (List.cons _) ha, fun hl => hq (by rwa [length_metrics_call])⟩
  | shutdown now _ ih =>
      obtain ⟨ha, hq⟩ := ih (fun c hc => hlast c (List.mem_cons_of_mem _ hc)) (resting_call he (.shutdown now))
        (hd.call (.shutdown now))
      exact ⟨ha, fun hl => hq (by rwa [length_metrics_call])⟩
  | @tick c calls ticked now hnow hrest ih =>
      have hticked := resting_call he (.advanceTo now)
      obtain ⟨ha, hq⟩ := ih hlast hticked (hd.call (.advanceTo now))
      have hsync : Sync (e.call c) ((e.call (.advanceTo now)).call c) ∧
          e.answers (c :: calls) = (e.call (.advanceTo now)).answers (c :: calls) := by
        rcases hrest.head with ⟨ev, rfl⟩ | ⟨t, rfl⟩
        · obtain ⟨hs, hp⟩ := process_ticked he hd hnow (hlast _ List.mem_cons_self)
          exact ⟨hs, congrArg₂ List.cons hp (hs.run calls).2⟩
        · have hs := shutdown_ticked he hd hnow (hlast _ List.mem_cons_self)
          exact ⟨hs, (hs.run calls).2⟩
      refine ⟨hsync.2.trans ha, fun hl => ?_⟩
      have hagree : Agree (e.run (c :: calls)).queue ((e.call (.advanceTo now)).run (c :: calls)).queue :=
        (hsync.1.run calls).1.agree (resting_run (resting_call he c) calls)
          (resting_run (resting_call hticked c) calls) (by rwa [length_metrics_run, length_metrics_call])
      exact hagree.trans (hq (by rwa [length_metrics_call]))

theorem compile_resting (h : compile d o = .ok e) : ∀ m ∈ e.metrics, Resting m := by
  obtain ⟨c, hc, rfl⟩ := compile_eq_ok.1 h
  obtain ⟨-, -, -, -, -, -, hmetrics⟩ := Definitions.compile_eq_ok.1 hc
  intro m hm
  obtain ⟨dm, -, hdm⟩ := Check.exists_of_mem_right hmetrics hm
  obtain ⟨windows, rule, gate, -, hsize, -, hrule, -, rfl⟩ := Metric.compile_eq_ok.1 hdm
  refine ⟨⟨fun hb => ?_, by simp⟩, rfl⟩
  rw [MetricPlan.compileRule_isBucketed hrule] at hb
  simpa [hb] using hsize

theorem metricIds_compile (h : compile d o = .ok e) : e.metricIds = d.metrics.map (·.id) := by
  obtain ⟨c, hc, rfl⟩ := compile_eq_ok.1 h
  obtain ⟨-, -, -, -, -, -, hmetrics⟩ := Definitions.compile_eq_ok.1 hc
  exact map_id_eq (fun _ _ => Metric.compile_id) hmetrics

theorem metricIds_call (he : e.Owning) (c : Call) : (e.call c).metricIds = e.metricIds := by
  obtain ⟨f, hf, hkept⟩ := keeps_call e c
  rw [metricIds, metricIds, hf, List.map_map]
  exact List.map_congr_left fun m hm => congrArg MetricPlan.id (hkept _ (kept_owned m.plan) m (he m hm)).plan

namespace Reachable

theorem resting (h : Reachable d o e) : ∀ m ∈ e.metrics, Resting m := by
  induction h with
  | compiled h => exact compile_resting h
  | call c _ _ ih => exact resting_call ih c
  | drain _ ih => exact ih

theorem nodup (h : Reachable d o e) : e.metricIds.Nodup := by
  induction h with
  | compiled h =>
      obtain ⟨c, hc, -⟩ := compile_eq_ok.1 h
      exact metricIds_compile h ▸ (Definitions.compile_eq_ok.1 hc).2.2.2.2.1
  | call c h _ ih => exact metricIds_call h.owning c ▸ ih
  | drain _ ih => exact ih

end Reachable

theorem restrict_length (hn : e.metricIds.Nodup) (id : String) : (e.restrict id).metrics.length ≤ 1 := by
  have hcount := List.nodup_iff_count.1 hn id
  rw [metricIds, List.count, List.countP_map, List.countP_eq_length_filter] at hcount
  exact hcount

theorem restrict_alone (hn : e.metricIds.Nodup) {m : Metric} (hm : m ∈ e.metrics) :
    (e.restrict m.plan.id).metrics = [m] := by
  have hlength := restrict_length hn m.plan.id
  have hmem : m ∈ (e.restrict m.plan.id).metrics := List.mem_filter.2 ⟨hm, by simp⟩
  match hms : (e.restrict m.plan.id).metrics with
  | [] => simp [hms] at hmem
  | [n] => rw [hms, List.mem_singleton] at hmem; rw [hmem]
  | _ :: _ :: _ => simp [hms] at hlength

end Engine

end EventMetrics
