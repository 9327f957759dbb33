import EventMetrics.Proofs.Engine.Restriction
import EventMetrics.Proofs.Metric.Pace
import EventMetrics.Proofs.Metric.Tally

namespace EventMetrics.Engine

open EventMetrics.Metric (Tally)
open Record (Agree)

def frame (e : Engine) : Engine := { e with metrics := [], queue := [] }

/-- Engines in step: their metrics are copies of one another, and a single metric keeps its books. -/
structure Sync (e e' : Engine) : Prop where
  frame : e.frame = e'.frame
  copies : List.Forall₂ (fun m m' => ∃ rs rs', Tally rs rs' m m') e.metrics e'.metrics
  alone : ∀ m m', e.metrics = [m] → e'.metrics = [m'] → Tally e.queue e'.queue m m'
  idle : e.metrics = [] → Agree e.queue e'.queue

namespace Sync

variable {e e' : Engine} {ev : Event}

theorem refl (e : Engine) : Sync e e where
  frame := rfl
  copies := List.forall₂_same.2 fun _ _ => ⟨[], [], rfl, .rfl⟩
  alone m m' h h' := by
    obtain rfl : m = m' := by simpa using h.symm.trans h'
    exact ⟨rfl, .rfl⟩
  idle _ := .rfl

theorem conditions (h : Sync e e') : e.conditions = e'.conditions :=
  (congrArg Engine.conditions h.frame :)

theorem matchers (h : Sync e e') : e.matchers = e'.matchers := (congrArg Engine.matchers h.frame :)

theorem watermark (h : Sync e e') : e.watermark = e'.watermark := (congrArg Engine.watermark h.frame :)

theorem closed (h : Sync e e') : e.closed = e'.closed := (congrArg Engine.closed h.frame :)

theorem congr_right {x : Engine} (h : Sync e e') (hframe : x.frame = e'.frame)
    (hmetrics : x.metrics = e'.metrics) (hqueue : e'.metrics.length ≤ 1 → x.queue = e'.queue) :
    Sync e x where
  frame := h.frame.trans hframe.symm
  copies := hmetrics ▸ h.copies
  alone m m' hm hm' := by
    rw [hqueue (by simp [← hmetrics, hm'])]
    exact h.alone m m' hm (hmetrics ▸ hm')
  idle hm := by
    have hnil : e'.metrics = [] := List.forall₂_nil_left_iff.1 (hm ▸ h.copies)
    rw [hqueue (by simp [hnil])]
    exact h.idle hm

theorem reframe {x x' : Engine} (h : Sync e e') (hframe : x.frame = x'.frame)
    (hmetrics : x.metrics = e.metrics) (hmetrics' : x'.metrics = e'.metrics)
    (hqueue : x.queue = e.queue) (hqueue' : x'.queue = e'.queue) : Sync x x' where
  frame := hframe
  copies := hmetrics ▸ hmetrics' ▸ h.copies
  alone := hmetrics ▸ hmetrics' ▸ hqueue ▸ hqueue' ▸ h.alone
  idle := hmetrics ▸ hqueue ▸ hqueue' ▸ h.idle

theorem each (f f' : Metric → Emitting Metric) (h : Sync e e') (reached : Int)
    (hf : ∀ rs rs' m m', m ∈ e.metrics → Tally rs rs' m m' →
      Tally (rs ++ (f m).records) (rs' ++ (f' m').records) (f m).state (f' m').state) :
    Sync (e.each f reached) (e'.each f' reached) := by
  refine ⟨(congrArg (fun e : Engine => { e with watermark := some reached }) h.frame :), ?_, ?_, ?_⟩
  · rw [each_metrics, each_metrics, List.forall₂_map_left_iff, List.forall₂_map_right_iff]
    refine List.Forall₂.imp ?_ ((List.forall₂_and_left _ _).2 ⟨fun m hm => hm, h.copies⟩)
    rintro m m' ⟨hm, rs, rs', ht⟩
    exact ⟨_, _, hf rs rs' m m' hm ht⟩
  · intro n n' hn hn'
    rw [each_metrics, List.map_eq_singleton_iff] at hn hn'
    obtain ⟨m, hm, rfl⟩ := hn
    obtain ⟨m', hm', rfl⟩ := hn'
    rw [each_queue, each_queue, hm, hm']
    simpa using hf _ _ m m' (by simp [hm]) (h.alone m m' hm hm')
  · intro hn
    rw [each_metrics, List.map_eq_nil_iff] at hn
    have hnil : e'.metrics = [] := List.forall₂_nil_left_iff.1 (hn ▸ h.copies)
    rw [each_queue, each_queue, hn, hnil]
    simpa using h.idle hn

theorem each_each (f f' g : Metric → Emitting Metric) (h : Sync e e') (mid reached : Int)
    (hf : ∀ rs rs' m m', m ∈ e.metrics → Tally rs rs' m m' →
      Tally (rs ++ (f m).records) (rs' ++ ((g m').andThen f').records) (f m).state
        ((g m').andThen f').state) :
    Sync (e.each f reached) ((e'.each g mid).each f' reached) := by
  refine (h.each f (fun m => (g m).andThen f') reached hf).congr_right rfl ?_ fun hl => ?_
  · simp
  · match hm : e'.metrics with
    | [] => simp [hm]
    | [m] => simp [hm]
    | m :: n :: ms => simp [hm] at hl

theorem ensureStarted (h : Sync e e') (time : Int) :
    Sync (e.ensureStarted time).1 (e'.ensureStarted time).1 ∧
      (e.ensureStarted time).2 = (e'.ensureStarted time).2 := by
  have hstart : e.startTime = e'.startTime := (congrArg Engine.startTime h.frame :)
  have hmark := h.watermark
  cases hw : e.watermark with
  | some w =>
      rw [ensureStarted_of_some hw, ensureStarted_of_some (hmark ▸ hw)]
      exact ⟨h, rfl⟩
  | none =>
      rw [ensureStarted_of_none hw, ensureStarted_of_none (hmark ▸ hw), ← hstart, ← h.conditions]
      exact ⟨h.each _ _ _ fun rs rs' m m' _ ht => by simpa using ht.start e.conditions _, rfl⟩

theorem expecting (h : Sync e e') (ev : Event) : Sync (e.expecting ev) (e'.expecting ev) := by
  have hadvance := h.each _ _ ev.time fun rs rs' m m' _ ht => ht.advance e.conditions ev.time false
  rw [Engine.expecting, Engine.expecting, ← h.conditions]
  exact hadvance.reframe (congrArg (fun e : Engine => e.learn ev) hadvance.frame :) rfl rfl rfl rfl

theorem hear (h : Sync (e.expecting ev) (e'.expecting ev)) (hcondition : e.condition ev = e'.condition ev) :
    Sync (e.apply ev).1 (e'.apply ev).1 ∧ (e.apply ev).2 = (e'.apply ev).2 := by
  have hhear : (e'.expecting ev).hear ev = (e.expecting ev).hear ev := by
    funext u m
    rw [Engine.hear, Engine.hear, h.conditions, h.matchers]
  have houtcomes : (e.expecting ev).metrics.map (fun m => ((e.expecting ev).hear ev (e.condition ev).2 m).2) =
      (e'.expecting ev).metrics.map fun m => ((e.expecting ev).hear ev (e.condition ev).2 m).2 := by
    rw [← List.forall₂_eq_eq_eq, List.forall₂_map_left_iff, List.forall₂_map_right_iff]
    refine h.copies.imp ?_
    rintro m m' ⟨rs, rs', ht⟩
    exact (ht.absorb _ ev _ _).2
  rw [apply_eq, apply_eq, ← hcondition, hhear]
  exact ⟨h.each _ _ _ fun rs rs' m m' _ ht => (ht.absorb _ ev _ _).1, by rw [houtcomes]⟩

theorem apply (h : Sync e e') (ev : Event) :
    Sync (e.apply ev).1 (e'.apply ev).1 ∧ (e.apply ev).2 = (e'.apply ev).2 :=
  (h.expecting ev).hear (by rw [condition, condition, h.conditions, h.matchers])

theorem process (h : Sync e e') (ev : Event) :
    Sync (e.process ev).1 (e'.process ev).1 ∧ (e.process ev).2 = (e'.process ev).2 := by
  cases hc : e.closed with
  | true => simpa [Engine.process, hc, ← h.closed] using h
  | false =>
      obtain ⟨hs, hreached⟩ := h.ensureStarted ev.time
      rw [process_eq hc, process_eq (h.closed ▸ hc), ← hreached]
      split
      · exact ⟨hs.reframe (congrArg (fun e : Engine => { e with drops := e.drops.record .outOfOrder })
          hs.frame :) rfl rfl rfl rfl, rfl⟩
      · exact hs.apply ev

theorem call (h : Sync e e') (c : Call) : Sync (e.call c) (e'.call c) := by
  cases hc : e.closed with
  | true => rwa [call_of_closed hc, call_of_closed (h.closed ▸ hc)]
  | false =>
      cases c with
      | process ev => exact (h.process ev).1
      | advanceTo now =>
          obtain ⟨hs, hreached⟩ := h.ensureStarted now
          rw [Engine.call, Engine.call, advanceTo_eq hc, advanceTo_eq (h.closed ▸ hc), ← hreached,
            ← hs.conditions]
          split
          · exact hs
          · exact hs.each _ _ now fun rs rs' m m' _ ht => ht.advanceTo _ now
      | shutdown now =>
          obtain ⟨hs, hreached⟩ := h.ensureStarted now
          rw [Engine.call, Engine.call, shutdown_eq hc, shutdown_eq (h.closed ▸ hc), ← hreached,
            ← hs.conditions]
          have hd := hs.each _ _ (max now (e.ensureStarted now).2) fun rs rs' m m' _ ht =>
            ht.shutdown (e.ensureStarted now).1.conditions (max now (e.ensureStarted now).2)
          exact hd.reframe (congrArg (fun e : Engine => { e with closed := true }) hd.frame :)
            rfl rfl rfl rfl

theorem run (h : Sync e e') (calls : List Call) :
    Sync (e.run calls) (e'.run calls) ∧ e.answers calls = e'.answers calls := by
  induction calls generalizing e e' with
  | nil => exact ⟨h, rfl⟩
  | cons c calls ih =>
      obtain ⟨hrun, hanswers⟩ := ih (h.call c)
      refine ⟨hrun, ?_⟩
      cases c with
      | process ev => exact congrArg₂ List.cons (h.process ev).2 hanswers
      | advanceTo now => exact hanswers
      | shutdown now => exact hanswers

end Sync

end EventMetrics.Engine
