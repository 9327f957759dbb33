import EventMetrics.Engine.Checked
import EventMetrics.Proofs.Engine.Ending
import EventMetrics.Proofs.Metric.Checked

namespace EventMetrics.Engine

open Checked (guard pure_inj guard_true guard_eq_pure guard_eq_throw bind_eq_pure guard_bind guard_bind_pure mapM_guard
  mapM_eq_pure)
open Instant (last)

def call! (e : Engine) : Call → Checked Engine
  | .process ev => do return (← e.process! ev).1
  | .advanceTo now => e.advanceTo! now
  | .shutdown now => e.shutdown! now

/-- What a program comes to whose numbers are words. -/
def run! (e : Engine) (calls : List Call) : Checked Engine := calls.foldlM call! e

def countsFit (e : Engine) : Call → Bool
  | .process ev =>
    e.closed || ev.time < (e.ensureStarted ev.time).2 || e.conditions.countsFit ev (e.matchers.judge ev)
  | .advanceTo _ | .shutdown _ => true

def callFits (e : Engine) (c : Call) : Bool :=
  (e.metricIds.all fun id => (e.callWorks id c).all Work.fits) && e.countsFit c

def runFits : Engine → List Call → Bool
  | _, [] => true
  | e, c :: calls => e.callFits c && (e.call c).runFits calls

variable {d : Definitions} {o : EngineOptions} {e e' : Engine} {c : Call} {calls : List Call} {ev : Event} {now : Int}

section Sound

theorem ensureStarted!_eq_pure {x : Engine × Int} (h : e.ensureStarted! now = pure x) : e.ensureStarted now = x :=
  (guard_eq_pure.1 h).2

theorem take!_eq_pure {x : Engine × Ingest} (h : e.take! ev = pure x) : e.take? ev = some x := by
  obtain ⟨advanced, hadvanced, h⟩ := bind_eq_pure.1 h
  obtain ⟨⟨cs, u⟩, hcs, h⟩ := bind_eq_pure.1 h
  obtain ⟨absorbed, habsorbed, h⟩ := bind_eq_pure.1 h
  obtain ⟨-, hcs⟩ := guard_eq_pure.1 hcs
  have hadvance := mapM_eq_pure (fun _ _ => Metric.advance!_eq_pure) hadvanced
  have habsorb := mapM_eq_pure (fun _ _ => Metric.absorb!_eq_pure) habsorbed
  simp only [take?, hadvance, hcs, habsorb, Option.bind_eq_bind, Option.bind_some]
  exact congrArg some (pure_inj.1 h)

theorem process!_eq_pure {x : Engine × Ingest} (h : e.process! ev = pure x) : e.process? ev = some x := by
  rw [process!] at h
  rw [process?]
  cases hc : e.closed with
  | true =>
      rw [hc] at h
      exact congrArg some (pure_inj.1 h)
  | false =>
      rw [hc] at h
      obtain ⟨⟨started, reached⟩, hs, h⟩ := bind_eq_pure.1 h
      simp only [ensureStarted!_eq_pure hs, Bool.false_eq_true, if_false]
      dsimp only at h
      split at h
      next hlt => rw [if_pos hlt, pure_inj.1 h]
      next hle => rw [if_neg hle, take!_eq_pure h]

theorem advanceTo!_eq_pure (h : e.advanceTo! now = pure e') : e.advanceTo? now = some e' := by
  rw [advanceTo!] at h
  rw [advanceTo?]
  cases hc : e.closed with
  | true =>
      rw [hc] at h
      exact congrArg some (pure_inj.1 h)
  | false =>
      rw [hc] at h
      obtain ⟨⟨started, reached⟩, hs, h⟩ := bind_eq_pure.1 h
      simp only [ensureStarted!_eq_pure hs, Bool.false_eq_true, if_false]
      dsimp only at h
      split at h
      next hlt => rw [if_pos hlt, pure_inj.1 h]
      next hle =>
          obtain ⟨steps, hsteps, h⟩ := bind_eq_pure.1 h
          rw [if_neg hle, mapM_eq_pure (fun _ _ => Metric.advanceTo!_eq_pure) hsteps]
          exact congrArg some (pure_inj.1 h)

theorem shutdown!_eq_pure (h : e.shutdown! now = pure e') : e.shutdown? now = some e' := by
  rw [shutdown!] at h
  rw [shutdown?]
  cases hc : e.closed with
  | true =>
      rw [hc] at h
      exact congrArg some (pure_inj.1 h)
  | false =>
      rw [hc] at h
      obtain ⟨⟨started, reached⟩, hs, h⟩ := bind_eq_pure.1 h
      obtain ⟨steps, hsteps, h⟩ := bind_eq_pure.1 h
      simp only [ensureStarted!_eq_pure hs, Bool.false_eq_true, if_false]
      rw [mapM_eq_pure (fun _ _ => Metric.shutdown!_eq_pure) hsteps]
      exact congrArg some (pure_inj.1 h)

theorem call!_eq_some (h : e.call! c = pure e') : e.call? c = some e' := by
  cases c with
  | process ev =>
      obtain ⟨x, hx, h⟩ := bind_eq_pure.1 h
      rw [call?, process!_eq_pure hx, ← pure_inj.1 h]
      rfl
  | advanceTo now => exact advanceTo!_eq_pure h
  | shutdown now => exact shutdown!_eq_pure h

end Sound

theorem all_true {α : Type} (xs : List α) : (xs.all fun _ => true) = true := List.all_eq_true.2 fun _ _ => rfl

theorem all_and {α : Type} (xs : List α) (p q : α → Bool) : (xs.all fun a => p a && q a) = (xs.all p && xs.all q) := by
  rw [Bool.eq_iff_iff]
  simp [forall_and]

theorem fits_eachWorks (e : Engine) (works : Metric → List Work) :
    (e.metricIds.all fun id => (e.eachWorks id works).all Work.fits) =
      e.metrics.all fun m => (works m).all Work.fits := by
  rw [Bool.eq_iff_iff]
  simp only [metricIds, eachWorks, List.all_eq_true, List.mem_map, List.mem_flatMap, List.mem_filter,
    decide_eq_true_eq]
  constructor
  · exact fun h m hm w hw => h _ ⟨m, hm, rfl⟩ w ⟨m, ⟨hm, rfl⟩, hw⟩
  · rintro h _ - w ⟨m, ⟨hm, -⟩, hw⟩
    exact h m hm w hw

theorem fits_startWorks (e : Engine) (time : Int) :
    (e.metricIds.all fun id => (e.startWorks id time).all Work.fits) =
      (e.watermark.isSome || e.metrics.all (·.startFits e.conditions (e.startTime.getD time))) := by
  cases hw : e.watermark with
  | some w => simp [startWorks, hw]
  | none =>
      simp only [startWorks, hw, fits_eachWorks, Metric.startFits_eq]
      rfl

theorem ensureStarted_metricIds (e : Engine) (time : Int) : (e.ensureStarted time).1.metricIds = e.metricIds := by
  obtain ⟨f, hf, hkept⟩ := ensureStarted_metrics e time
  rw [metricIds, metricIds, hf, List.map_map]
  exact List.map_congr_left fun m _ => congrArg MetricPlan.id (hkept m).1

theorem ensureStarted!_eq (e : Engine) (time : Int) : e.ensureStarted! time =
    guard (e.metricIds.all fun id => (e.startWorks id time).all Work.fits) (e.ensureStarted time) := by
  rw [ensureStarted!, fits_startWorks]

theorem callFits_of_closed (hc : e.closed = true) (c : Call) : e.callFits c = true := by
  rw [callFits, Bool.and_eq_true, List.all_eq_true]
  refine ⟨fun id _ => by rw [callWorks_of_closed hc]; rfl, ?_⟩
  cases c <;> simp [countsFit, hc]

theorem callFits_eq (hc : e.closed = false) (c : Call) : e.callFits c =
    ((e.metricIds.all fun id => (e.startWorks id c.time).all Work.fits) &&
      (((e.ensureStarted c.time).1.metricIds.all fun id =>
        ((e.ensureStarted c.time).1.askedWorks id (e.ensureStarted c.time).2 c).all Work.fits) && e.countsFit c)) := by
  simp only [callFits, callWorks, hc, Bool.false_eq_true, if_false, List.all_append, ensureStarted_metricIds,
    all_and, Bool.and_assoc]

namespace Standing

variable {reached : Int} (h : Standing e reached)
include h

theorem take!_eq (hle : reached ≤ ev.time) (hlast : ev.time ≤ last)
    (hends : ev.time = last → ∀ m ∈ e.metrics, ¬ m.Endless) : e.take! ev =
      guard ((e.metrics.all fun m => (m.visitWorks e.conditions ev (e.matchers.judge ev)).all Work.fits) &&
        e.conditions.countsFit ev (e.matchers.judge ev)) (e.apply ev) := by
  have hadvance : e.metrics.mapM (·.advance! e.conditions ev.time false) =
      guard (e.metrics.all fun m => (m.advanceWorks e.conditions ev.time false).all Work.fits)
        (e.metrics.map (·.advance e.conditions ev.time false)) :=
    mapM_guard fun m hm => Metric.advance!_eq (h.paced m hm) hlast
  have habsorb : (e.metrics.map (·.advance e.conditions ev.time false)).mapM (fun r : Emitting Metric =>
      r.state.absorb! (e.condition ev).1 ev (e.matchers.judge ev) (e.condition ev).2) =
        guard ((e.metrics.map (·.advance e.conditions ev.time false)).all fun r : Emitting Metric =>
            (r.state.absorbWorks (e.condition ev).1 ev (e.matchers.judge ev) (e.condition ev).2).all Work.fits)
          ((e.metrics.map (·.advance e.conditions ev.time false)).map fun r : Emitting Metric =>
            r.state.absorb (e.condition ev).1 ev (e.matchers.judge ev) (e.condition ev).2) := by
    refine mapM_guard fun r hr => ?_
    obtain ⟨m, hm, rfl⟩ := List.mem_map.1 hr
    have ht := h.onTime_advance hm hle hlast
    have hwindows := Metric.advance_windows m e.conditions ev.time false
    refine Metric.absorb!_eq ht.toPlaced (Metric.passes_of_not_endless ?_ hlast fun hend hendless => ?_)
    · exact (hwindows ▸ h.bounded m hm).onEvent ev.time _
    · exact hends hend m hm ⟨Metric.advance_plan m e.conditions ev.time false ▸ hendless.1,
        hwindows ▸ List.map_eq_nil_iff.1 hendless.2⟩
  have hfits : ((e.metrics.all fun m => (m.visitWorks e.conditions ev (e.matchers.judge ev)).all Work.fits) &&
      e.conditions.countsFit ev (e.matchers.judge ev)) =
        ((e.metrics.all fun m => (m.advanceWorks e.conditions ev.time false).all Work.fits) &&
          (e.conditions.countsFit ev (e.matchers.judge ev) &&
            (e.metrics.map (·.advance e.conditions ev.time false)).all fun r : Emitting Metric =>
              (r.state.absorbWorks (e.condition ev).1 ev (e.matchers.judge ev) (e.condition ev).2).all Work.fits)) := by
    rw [Bool.and_left_comm, Bool.and_comm]
    simp only [Metric.visitWorks, List.all_append, all_and, List.all_map]
    rfl
  rw [take!, hadvance, hfits]
  refine guard_bind (guard_bind ?_)
  exact (congrArg (· >>= _) habsorb).trans (guard_bind_pure rfl)

end Standing

section

variable (he : Reachable d o e) (ho : o.InRange)
include he ho

theorem process!_eq (hev : Instant.InRange ev.time) (hends : ¬ e.Hangs (.process ev)) :
    e.process! ev = guard (e.callFits (.process ev)) (e.process ev) := by
  cases hc : e.closed with
  | true => simp [process!, process, hc, callFits_of_closed, guard_true]
  | false =>
      have hstanding := he.standing ho hc hev
      have hconditions := ensureStarted_conditions e ev.time
      have hmatchers := ensureStarted_matchers e ev.time
      rw [process!, process, hc, callFits_eq hc, countsFit, hc, ensureStarted!_eq]
      refine guard_bind ?_
      dsimp only [Call.time, askedWorks]
      by_cases hlt : ev.time < (e.ensureStarted ev.time).2
      · simp [hlt, all_true, guard_true]
      · simp only [hlt, if_false, decide_false, Bool.false_or, ← hconditions, ← hmatchers, fits_eachWorks]
        refine hstanding.take!_eq (Int.not_lt.1 hlt) hev.2 fun hlast n hn hendless => ?_
        obtain ⟨f, hf, hkept⟩ := ensureStarted_metrics e ev.time
        rw [hf] at hn
        obtain ⟨m, hm, rfl⟩ := List.mem_map.1 hn
        exact hends ⟨hc, hlast, m, hm, (hkept m).1 ▸ hendless.1, (hkept m).2 ▸ hendless.2⟩

theorem process!_eq_pure_of_ne (hev : Instant.InRange ev.time) (hends : ¬ e.Hangs (.process ev))
    (hfits : e.process! ev ≠ throw .overflow) : e.process! ev = pure (e.process ev) := by
  rw [process!_eq he ho hev hends] at hfits ⊢
  rw [Ne, guard_eq_throw, Bool.not_eq_false] at hfits
  rw [hfits]
  rfl

theorem advanceTo!_eq (hnow : Instant.InRange now) :
    e.advanceTo! now = guard (e.callFits (.advanceTo now)) (e.advanceTo now) := by
  cases hc : e.closed with
  | true => simp [advanceTo!, advanceTo, hc, callFits_of_closed, guard_true]
  | false =>
      have hstanding := he.standing ho hc hnow
      rw [advanceTo!, advanceTo, hc, callFits_eq hc, ensureStarted!_eq]
      refine guard_bind ?_
      dsimp only [Call.time, askedWorks, countsFit]
      by_cases hlt : now < (e.ensureStarted now).2
      · simp [hlt, all_true, guard_true]
      · simp only [hlt, if_false, Bool.and_true, fits_eachWorks]
        exact (congrArg (· >>= _) (mapM_guard fun m hm => Metric.advanceTo!_eq (hstanding.paced m hm) hnow.2)).trans
          (guard_bind_pure rfl)

theorem shutdown!_eq (hnow : Instant.InRange now) :
    e.shutdown! now = guard (e.callFits (.shutdown now)) (e.shutdown now) := by
  cases hc : e.closed with
  | true => simp [shutdown!, shutdown, hc, callFits_of_closed, guard_true]
  | false =>
      have hstanding := he.standing ho hc hnow
      have hlast := Int.max_le.2 ⟨hnow.2, hstanding.inRange.2⟩
      rw [shutdown!, shutdown, hc, callFits_eq hc, ensureStarted!_eq]
      refine guard_bind ?_
      simp only [Call.time, askedWorks, countsFit, Bool.and_true, fits_eachWorks]
      exact (congrArg (· >>= _) (mapM_guard fun m hm => Metric.shutdown!_eq (hstanding.paced m hm) hlast)).trans
        (guard_bind_pure rfl)

/-- A call that ends comes to what it comes to in exact numbers, if words hold them. -/
theorem call!_eq (hc : c.InRange) (hends : ¬ e.Hangs c) : e.call! c = guard (e.callFits c) (e.call c) := by
  cases c with
  | process ev => exact (congrArg (· >>= _) (process!_eq he ho hc hends)).trans (guard_bind_pure rfl)
  | advanceTo now => exact advanceTo!_eq he ho hc
  | shutdown now => exact shutdown!_eq he ho hc

theorem call!_eq_pure (hc : c.InRange) :
    e.call! c = pure e' ↔ ¬ e.Hangs c ∧ e.callFits c = true ∧ e.call c = e' := by
  by_cases hends : e.Hangs c
  · exact iff_of_false (fun h => ((call?_eq_some he ho hc).1 (call!_eq_some h)).1 hends) fun h => h.1 hends
  · rw [call!_eq he ho hc hends, guard_eq_pure, and_iff_right hends]

end

theorem run!_cons (e : Engine) (c : Call) (calls : List Call) :
    e.run! (c :: calls) = e.call! c >>= fun e => e.run! calls := rfl

/-- A run that ends comes to what it comes to in exact numbers, if words hold them all. -/
theorem run!_eq (he : Reachable d o e) (ho : o.InRange) (hcalls : ∀ c ∈ calls, c.InRange) (hends : e.Ends calls) :
    e.run! calls = guard (e.runFits calls) (e.run calls) := by
  induction calls generalizing e with
  | nil => rfl
  | cons c calls ih =>
      have hc := hcalls c List.mem_cons_self
      rw [run!_cons, call!_eq he ho hc hends.1]
      exact guard_bind (ih (he.call c hc) (fun k hk => hcalls k (List.mem_cons_of_mem _ hk)) hends.2)

/-- A program runs through just if each call ends and words hold all numbers, and then to what comes in exact numbers
without loops. -/
theorem run!_eq_pure (he : Reachable d o e) (ho : o.InRange) (hcalls : ∀ c ∈ calls, c.InRange) :
    e.run! calls = pure e' ↔ e.Ends calls ∧ e.runFits calls = true ∧ e.run calls = e' := by
  constructor
  · intro h
    have hends : e.Ends calls := by
      induction calls generalizing e with
      | nil => trivial
      | cons c calls ih =>
          have hc := hcalls c List.mem_cons_self
          obtain ⟨e₁, hcall, hrest⟩ := bind_eq_pure.1 h
          obtain ⟨hends, -, rfl⟩ := (call!_eq_pure he ho hc).1 hcall
          exact ⟨hends, ih (he.call c hc) (fun k hk => hcalls k (List.mem_cons_of_mem _ hk)) hrest⟩
    rw [run!_eq he ho hcalls hends] at h
    exact ⟨hends, guard_eq_pure.1 h⟩
  · rintro ⟨hends, hfits, rfl⟩
    rw [run!_eq he ho hcalls hends, hfits]
    rfl

theorem run!_of_timely (he : Reachable d o e) (ho : o.InRange) (hcalls : ∀ c ∈ calls, Timely c)
    (hfits : e.runFits calls = true) : e.run! calls = pure (e.run calls) :=
  (run!_eq_pure he ho fun c hc => (hcalls c hc).inRange).2 ⟨ends_of_timely hcalls, hfits, rfl⟩

/-- A run that ends stops by a fault, or comes to what it comes to in exact numbers. -/
theorem run!_eq_pure_of_ne (he : Reachable d o e) (ho : o.InRange) (hcalls : ∀ c ∈ calls, c.InRange)
    (hends : e.Ends calls) (hrun : e.run! calls ≠ throw .overflow) : e.run! calls = pure (e.run calls) := by
  rw [run!_eq he ho hcalls hends] at hrun ⊢
  rw [Ne, guard_eq_throw, Bool.not_eq_false] at hrun
  rw [hrun]
  rfl

theorem shutdown!_of_ordinary (he : Reachable d o e) (ho : o.InRange) (hcalls : ∀ c ∈ calls, Ordinary c)
    (hnow : Instant.InRange now) (hrun : e.run! (calls ++ [.shutdown now]) ≠ throw .overflow) :
    e.run! (calls ++ [.shutdown now]) = pure ((e.run calls).shutdown now) := by
  have htimely : ∀ c ∈ calls ++ [.shutdown now], Timely c := by
    simp only [List.mem_append, List.mem_singleton]
    rintro c (hc | rfl)
    · exact (hcalls c hc).timely
    · exact hnow
  rw [run!_eq_pure_of_ne he ho (fun c hc => (htimely c hc).inRange) (ends_of_timely htimely) hrun]
  exact congrArg pure (run_concat e calls _)

end EventMetrics.Engine
