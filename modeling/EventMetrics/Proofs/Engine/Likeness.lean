import EventMetrics.Proofs.Engine.Steps
import EventMetrics.Proofs.Metric.Heeding

namespace EventMetrics.Engine

open Conditions (AgreeOn Closed)
open EventMetrics.Metric (Resting Tally)
open Record (Agree)

variable {S : Nat → Prop} {e e' : Engine} {m m' : Metric} {id : String} {calls : List Call} {now : Int}

/-- A run and the shutdown after it show the same of a metric, whichever of the engines it is on. -/
structure Concur (id : String) (calls : List Call) (now : Int) (e e' : Engine) : Prop where
  books : Agree ((e.run calls).shutdown now).queue ((e'.run calls).shutdown now).queue
  history : e.history id calls = e'.history id calls

theorem Concur.trans {x : Engine} (h : Concur id calls now e e') (h' : Concur id calls now e' x) :
    Concur id calls now e x :=
  ⟨h.books.trans h'.books, h.history.trans h'.history⟩

theorem Concur.symm (h : Concur id calls now e e') : Concur id calls now e' e := ⟨h.books.symm, h.history.symm⟩

theorem Concur.cons {c : Call} (hheard : e.heard id c = e'.heard id c)
    (h : Concur id calls now (e.call c) (e'.call c)) :
    Concur id (c :: calls) now e e' :=
  ⟨h.books, congrArg₂ (· ++ ·) hheard h.history⟩

theorem Concur.of_restrict (he : e.Owning) (he' : e'.Owning)
    (h : Concur id calls now (e.restrict id) (e'.restrict id)) :
    Agree (((e.run calls).shutdown now).queue.filter (·.metric = id))
      (((e'.run calls).shutdown now).queue.filter (·.metric = id)) ∧ e.history id calls = e'.history id calls := by
  have hqueue : ∀ e : Engine, e.Owning → (((e.restrict id).run calls).shutdown now).queue =
      ((e.run calls).shutdown now).queue.filter (·.metric = id) := fun e he => by
    have hshut := call_restrict id (he.run calls) (.shutdown now)
    rw [run_restrict he]
    exact congrArg Engine.queue hshut
  obtain ⟨hbooks, hhistory⟩ := h
  rw [hqueue e he, hqueue e' he'] at hbooks
  rw [history_restrict he, history_restrict he'] at hhistory
  exact ⟨hbooks, hhistory⟩

theorem heard_congr {c : Call} (hprocessed : e.processed < (e.call c).processed ↔ e'.processed < (e'.call c).processed)
    (hbefore : e.accepted id = e'.accepted id) (hafter : (e.call c).accepted id = (e'.call c).accepted id) :
    e.heard id c = e'.heard id c := by
  cases c with
  | process ev => simp only [heard, hprocessed, hbefore, hafter]
  | advanceTo | shutdown => rfl

namespace Sync

theorem of_alone (hm : e.metrics = [m]) (hm' : e'.metrics = [m']) (hframe : e.frame = e'.frame)
    (ht : Tally e.queue e'.queue m m') : Sync e e' where
  frame := hframe
  copies := by
    rw [hm, hm']
    exact .cons ⟨_, _, ht⟩ .nil
  alone n n' hn hn' := by
    cases hm.symm.trans hn
    cases hm'.symm.trans hn'
    exact ht
  idle hn := by simp [hm] at hn

theorem accepted (h : Sync e e') (id : String) : e.accepted id = e'.accepted id := by
  have hcopies := h.copies
  rw [Engine.accepted, Engine.accepted]
  generalize e.metrics = ms, e'.metrics = ms' at hcopies ⊢
  induction hcopies with
  | nil => rfl
  | cons hm _ ih =>
      obtain ⟨rs, rs', ht⟩ := hm
      have haccepted := (congrArg (fun m : Metric => m.turnover.accepted) ht.core :)
      simp only [List.find?_cons, ← ht.plan]
      split
      · exact haccepted
      · exact ih

theorem processed (h : Sync e e') : e.processed = e'.processed := (congrArg Engine.processed h.frame :)

theorem history (h : Sync e e') (id : String) (calls : List Call) : e.history id calls = e'.history id calls := by
  induction calls generalizing e e' with
  | nil => rfl
  | cons c calls ih =>
      have hcall := h.call c
      rw [Engine.history, Engine.history, ih hcall,
        heard_congr (by rw [h.processed, hcall.processed]) (h.accepted id) (hcall.accepted id)]

theorem concur (h : Sync e e') (he : ∀ m ∈ e.metrics, Resting m) (he' : ∀ m ∈ e'.metrics, Resting m)
    (hl : e.metrics.length ≤ 1) (id : String) (calls : List Call) (now : Int) : Concur id calls now e e' := by
  refine ⟨?_, h.history id calls⟩
  refine ((h.run calls).1.call (.shutdown now)).agree (resting_call (resting_run he calls) _)
    (resting_call (resting_run he' calls) _) ?_
  rwa [length_metrics_call, length_metrics_run]

end Sync

/-- Engines that have started and are the same to their metrics, which ask for no conditions but those in `S`. -/
structure SameTo (S : Nat → Prop) (e e' : Engine) : Prop where
  matchers : e.matchers = e'.matchers
  metrics : e.metrics = e'.metrics
  queue : e.queue = e'.queue
  watermark : e.watermark = e'.watermark
  closed : e.closed = e'.closed
  conditions : AgreeOn S e.conditions e'.conditions
  started : e.watermark.isSome = true
  owning : e.Owning
  below : Closed S e.conditions.nodes
  gates : ∀ p ∈ e.metrics.map (·.plan), ∀ g, p.gate = some g → S g.condition

namespace SameTo

theorem alike (h : SameTo S e e') (hm : m ∈ e.metrics) : m.plan.Alike e.conditions e'.conditions :=
  MetricPlan.alike_of_agreeOn h.conditions h.below (h.gates m.plan (List.mem_map_of_mem hm))

theorem accepted (h : SameTo S e e') (id : String) : e.accepted id = e'.accepted id := by
  rw [Engine.accepted, Engine.accepted, h.metrics]

theorem each (h : SameTo S e e') {f f' : Metric → Emitting Metric} (hf : ∀ m ∈ e.metrics, f m = f' m)
    (howned : ∀ m ∈ e.metrics, Metric.Owned m.plan (f m).state (f m).records) (reached : Int) :
    SameTo S (e.each f reached) (e'.each f' reached) where
  matchers := h.matchers
  metrics := by
    rw [each_metrics, each_metrics, ← h.metrics]
    exact List.map_congr_left fun m hm => by rw [hf m hm]
  queue := by
    rw [each_queue, each_queue, ← h.metrics, ← h.queue]
    exact congrArg (e.queue ++ ·) (List.flatMap_congr fun m hm => by rw [hf m hm])
  watermark := rfl
  closed := h.closed
  conditions := h.conditions
  started := rfl
  owning := .each reached howned
  below := h.below
  gates := by
    have hplans : (e.each f reached).metrics.map (·.plan) = e.metrics.map (·.plan) := by
      rw [each_metrics, List.map_map]
      exact List.map_congr_left fun m hm => (howned m hm).plan
    exact hplans ▸ h.gates

theorem learn (h : SameTo S e e') (ev : Event) : SameTo S (e.learn ev) (e'.learn ev) where
  matchers := h.matchers
  metrics := h.metrics
  queue := h.queue
  watermark := h.watermark
  closed := h.closed
  conditions := by
    have hheard := (h.conditions.onEvent h.below ev (e.matchers.judge ev)).1
    simp only [Engine.learn, condition, ← h.matchers]
    exact hheard
  started := h.started
  owning := h.owning
  below := h.below.onEvent ev _
  gates := h.gates

theorem expecting (h : SameTo S e e') (ev : Event) : SameTo S (e.expecting ev) (e'.expecting ev) :=
  (h.each (fun _ hm => Metric.advance_alike (h.alike hm) ev.time false)
    (fun m hm => (h.owning m hm).advance _ ev.time false) ev.time).learn ev

theorem told (h : SameTo S e e') (ev : Event) {p : MetricPlan} (hp : p ∈ e.metrics.map (·.plan)) :
    p.ToldAlike (e.condition ev).2 (e'.condition ev).2 := by
  intro g hg
  simp only [condition, ← h.matchers]
  exact (h.conditions.onEvent h.below ev (e.matchers.judge ev)).2 g.condition (h.gates p hp g hg)

theorem apply (h : SameTo S e e') (ev : Event) : SameTo S (e.apply ev).1 (e'.apply ev).1 := by
  have hexpecting := h.expecting ev
  have hplans : ∀ m ∈ (e.expecting ev).metrics, m.plan ∈ e.metrics.map (·.plan) := by
    intro n hn
    simp only [Engine.expecting, Engine.learn, each_metrics, List.mem_map] at hn
    obtain ⟨m, hm, rfl⟩ := hn
    exact List.mem_map.2 ⟨m, hm, (Metric.advance_plan m e.conditions ev.time false).symm⟩
  rw [apply_eq, apply_eq]
  refine hexpecting.each (fun m hm => ?_) (fun m hm => (hexpecting.owning m hm).absorb _ ev _ _) ev.time
  simp only [hear, ← hexpecting.matchers]
  rw [Metric.absorb_alike (hexpecting.alike hm) (h.told ev (hplans m hm)) ev]

theorem call (h : SameTo S e e') (c : Call) : SameTo S (e.call c) (e'.call c) := by
  cases hc : e.closed with
  | true => rwa [call_of_closed hc, call_of_closed (h.closed ▸ hc)]
  | false =>
      have hc' := h.closed ▸ hc
      obtain ⟨w, hw⟩ := Option.isSome_iff_exists.1 h.started
      have hw' := h.watermark ▸ hw
      cases c with
      | process ev =>
          rw [Engine.call, Engine.call, process_eq hc, process_eq hc', ensureStarted_of_some hw,
            ensureStarted_of_some hw']
          dsimp only
          split
          · exact ⟨h.matchers, h.metrics, h.queue, h.watermark, h.closed, h.conditions, h.started, h.owning,
              h.below, h.gates⟩
          · exact h.apply ev
      | advanceTo now =>
          rw [Engine.call, Engine.call, advanceTo_eq hc, advanceTo_eq hc', ensureStarted_of_some hw,
            ensureStarted_of_some hw']
          dsimp only
          split
          · exact h
          · refine h.each (fun m hm => ?_) (fun m hm => (h.owning m hm).advanceTo _ now) now
            rw [Metric.advanceTo, Metric.advanceTo, Metric.advance_alike (h.alike hm)]
      | shutdown now =>
          rw [Engine.call, Engine.call, shutdown_eq hc, shutdown_eq hc', ensureStarted_of_some hw,
            ensureStarted_of_some hw']
          have hshut : SameTo S (e.each (·.shutdown e.conditions (max now w)) (max now w))
              (e'.each (·.shutdown e'.conditions (max now w)) (max now w)) :=
            h.each (fun m hm => by rw [Metric.shutdown, Metric.shutdown, Metric.advance_alike (h.alike hm)])
              (fun m hm => (h.owning m hm).shutdown _ _) (max now w)
          exact ⟨hshut.matchers, hshut.metrics, hshut.queue, hshut.watermark, rfl, hshut.conditions, hshut.started,
            hshut.owning, hshut.below, hshut.gates⟩

theorem processed_lt (h : SameTo S e e') (ev : Event) :
    e.processed < (e.process ev).1.processed ↔ e'.processed < (e'.process ev).1.processed := by
  cases hc : e.closed with
  | true =>
      have hsame : ∀ e : Engine, e.closed = true → (e.process ev).1 = e := fun e he => call_of_closed he (.process ev)
      rw [hsame e hc, hsame e' (h.closed ▸ hc)]
      simp
  | false =>
      obtain ⟨w, hw⟩ := Option.isSome_iff_exists.1 h.started
      rw [process_eq hc, process_eq (h.closed ▸ hc), ensureStarted_of_some hw,
        ensureStarted_of_some (h.watermark ▸ hw)]
      dsimp only
      split
      · simp
      · simp [apply_processed]

theorem run (h : SameTo S e e') (calls : List Call) : SameTo S (e.run calls) (e'.run calls) := by
  induction calls generalizing e e' with
  | nil => exact h
  | cons c calls ih => exact ih (h.call c)

theorem history (h : SameTo S e e') (id : String) (calls : List Call) : e.history id calls = e'.history id calls := by
  induction calls generalizing e e' with
  | nil => rfl
  | cons c calls ih =>
      rw [Engine.history, Engine.history, ih (h.call c)]
      cases c with
      | process ev => rw [heard_congr (h.processed_lt ev) (h.accepted id) ((h.call _).accepted id)]
      | advanceTo | shutdown => rfl

theorem concur (h : SameTo S e e') (id : String) (calls : List Call) (now : Int) : Concur id calls now e e' := by
  have hqueue : ((e.run calls).shutdown now).queue = ((e'.run calls).shutdown now).queue :=
    ((h.run calls).call (.shutdown now)).queue
  exact ⟨hqueue ▸ .rfl, h.history id calls⟩

end SameTo

end EventMetrics.Engine
