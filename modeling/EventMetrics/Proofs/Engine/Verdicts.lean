import EventMetrics.Proofs.Engine.Unrelated
import EventMetrics.Proofs.Metric.Unknown
import EventMetrics.Proofs.Metric.Verdicts

namespace EventMetrics.Engine

open Checked (guard guard_eq_throw pure_inj throw_ne_pure)
open Instant (first last)
open EventMetrics.Metric (Logged Settles Flagged Meets)

variable {d : Definitions} {o : EngineOptions} {e e₁ : Engine} {past calls : List Call} {ev : Event}
  {m : Metric} {ms : Matchers} {ws : List Work} {τ : Int} {P : List Work → Int → Metric → List Record → Prop}

theorem Holding.meets (h : Holding ms P ws e m τ) (hP : Logged ms P) (hc : Instant.InRange ev.time)
    (hends : ¬ e.Hangs (.process ev)) (hle : τ ≤ ev.time) : ∃ before w m',
      ws ++ e.callWorks m.plan.id (.process ev) = before ++ [w] ∧ (∃ rs, P before ev.time w.metric rs) ∧
      (e.call (.process ev)).metrics = [m'] ∧ Meets w (e.call (.process ev)).conditions ev (ms.judge ev) m' := by
  obtain ⟨before, w, hworks, hholds, hmeets⟩ :=
    hP.meets h.holds h.settled.toOnTime e.conditions hle hc.2 (h.passes hc.2 hends _)
  have hcall : e.call (.process ev) = (e.apply ev).1 := by
    rw [Engine.call, process_eq h.closed, ensureStarted_of_some h.watermark, if_neg (Int.not_lt.2 hle)]
  rw [hcall, Living.apply_alone h.metrics, h.matchers, callWorks_of_some h.closed h.watermark, askedWorks,
    if_neg (Int.not_lt.2 hle), eachWorks_alone h.metrics, h.matchers, hworks]
  exact ⟨ws ++ before, w, _, (List.append_assoc _ _ _).symm, hholds, rfl, hmeets⟩

theorem meets_run (hP : Logged e.matchers P) (h : compile d o = .ok e) (ho : o.InRange) (hm : m ∈ e.metrics)
    (hcalls : ∀ c ∈ past ++ [Call.process ev], c.InRange) (hends : e.Ends (past ++ [Call.process ev]))
    (hprocessed : (e.run past).processed < (e.run (past ++ [Call.process ev])).processed)
    (hstart : let s := e.startOf (past ++ [Call.process ev]) 0
      Instant.InRange s → P (m.startWorks e.conditions s) s (m.start e.conditions s) []) :
    ∃ (before : List Work) (w : Work) (m' : Metric),
      e.works m.plan.id (past ++ [Call.process ev]) = before ++ [w] ∧ (∃ rs, P before ev.time w.metric rs) ∧
      (e.run (past ++ [Call.process ev])).metrics.filter (·.plan.id = m.plan.id) = [m'] ∧
      Meets w (e.run (past ++ [Call.process ev])).conditions ev (e.matchers.judge ev) m' := by
  obtain ⟨c, more, hall⟩ := List.exists_cons_of_ne_nil (show past ++ [Call.process ev] ≠ [] by simp)
  rw [hall] at hcalls hends hstart
  obtain ⟨e₁, ws, m₁, τ, hholding, hplan, howning, hends₁, hstarted, hrun, hworks⟩ :=
    holding_compiled h ho hm hcalls hends hstart
  have hlast : (e₁.run past).call (.process ev) = (e.run (past ++ [Call.process ev])).restrict m.plan.id := by
    rw [hall, ← hrun, ← hall, run_concat]
  have hbefore : (e₁.run past).processed = (e.run past).processed := by
    cases past with
    | nil => exact hstarted
    | cons c' past =>
        obtain rfl : c' = c := by simpa using congrArg List.head? hall
        rw [hrun]
        rfl
  have hafter : ((e₁.run past).call (.process ev)).processed = (e.run (past ++ [Call.process ev])).processed := by
    rw [hlast]
    rfl
  rw [← hall, ends_append] at hends₁
  rcases hholding.runs hP (Q := fun _ _ _ => True) ⟨fun _ _ => trivial, fun _ _ _ => trivial⟩ howning
    (fun k hk => hcalls k (hall ▸ List.mem_append_left _ hk)) hends₁.1 with ⟨n, τ', hn⟩ | ⟨hclosed, -⟩
  · have hle : τ' ≤ ev.time := by
      refine Int.not_lt.1 fun hlt => ?_
      rw [Engine.call, process_eq hn.closed, ensureStarted_of_some hn.watermark, if_pos hlt] at hafter
      change (e₁.run past).processed = _ at hafter
      omega
    have hnplan : n.plan = m.plan := by
      have hplans := plans_run howning past
      rw [hn.metrics, hholding.metrics] at hplans
      simpa [hplan] using hplans
    have hc : Call.InRange (.process ev) := hcalls _ (hall ▸ List.mem_append_right _ (.head _))
    obtain ⟨before, w, m', hw, hholds, hmetrics, hmeets⟩ := hn.meets hP hc hends₁.2.1 hle
    rw [hlast] at hmetrics hmeets
    refine ⟨before, w, m', ?_, hholds, hmetrics, hmeets⟩
    rw [← hw, hall, hworks, ← hall, works_append, works, works, List.append_nil, hnplan, hplan, List.append_assoc]
  · rw [call_of_closed hclosed] at hafter
    omega

theorem compile_unseen (h : compile d o = .ok e) :
    ∀ m ∈ e.metrics, m.windowUnknown = false ∧ m.unknownDrops = 0 := by
  obtain ⟨c, hc, rfl⟩ := compile_eq_ok.1 h
  obtain ⟨-, -, -, -, -, -, hmetrics⟩ := Definitions.compile_eq_ok.1 hc
  intro m hm
  obtain ⟨dm, -, hdm⟩ := Check.exists_of_mem_right hmetrics hm
  obtain ⟨windows, rule, gate, -, -, -, -, -, rfl⟩ := Metric.compile_eq_ok.1 hdm
  exact ⟨rfl, rfl⟩

theorem isActiveAt_alone {id : String} {m' : Metric} (h : e.metrics.filter (·.plan.id = id) = [m']) (now : Int) :
    e.isActiveAt id now = some (m'.windows.isActive now) := by
  rw [isActiveAt, ← List.head?_filter, h]
  rfl

/-- A metric meets each event in order, after the event's own effect on activity and conditions. If the event is a
sample of the metric, it is accepted just when the metric is active, all fields are there, the condition is true and
was not unknown when the window opened, the value is a number and there is room for the key. It is dropped for an
unknown condition just when the metric is active, all fields are there and the condition is unknown or was when the
window opened. It is ignored, and then leaves no trace, just when the metric is not active, or all fields are there
and the condition is false and was not unknown. The window opened with the last activation or with the open bucket,
whichever came later. At the last instant nothing comes of an event if some metric is endless, nor of one after which
some number leaves its word. -/
theorem outcome_of_sample (h : compile d o = .ok e) (ho : o.InRange) (hm : m ∈ e.metrics)
    (hpast : ∀ c ∈ past, c.InRange) (hrun : e.run! past = pure e₁) (hopen : e₁.closed = false)
    (hev : Instant.InRange ev.time) (hle : (e₁.ensureStarted ev.time).2 ≤ ev.time)
    (hcalm : ev.time = last → ∀ n ∈ e₁.metrics, ¬ n.Endless) (hfits : e₁.process! ev ≠ throw .overflow)
    {what : Nat} (hwhat : m.plan.rule.what? = some what) (hhit : (e.matchers.judge ev).get what = true) :
    ∃ final ingest, e₁.process! ev = pure (final, ingest) ∧
    ∃ (before : List Work) (w : Work) (outcome : Outcome) (m' : Metric),
      e.works m.plan.id (past ++ [Call.process ev]) = before ++ [w] ∧ w.event? = some ev ∧
      w.outcome? = some outcome ∧ final.metrics.filter (·.plan.id = m.plan.id) = [m'] ∧
      let active : Option Bool := final.isActiveAt m.plan.id ev.time
      let signal : Signal := m.plan.signal final.conditions ev
      active = some w.metric.active ∧
      (outcome = .accepted ↔ active = some true ∧ m.plan.Complete ev ∧ signal = .on ∧
        ¬ m.plan.WindowUnknown before ∧ m.plan.rule.Reads ev ∧ w.metric.HasRoom ev) ∧
      (outcome = .dropped .conditionUnknown ↔ active = some true ∧ m.plan.Complete ev ∧
        (signal = .unknown ∨ m.plan.WindowUnknown before)) ∧
      (outcome = .ignored ↔ active = some false ∨
        m.plan.Complete ev ∧ signal = .off ∧ ¬ m.plan.WindowUnknown before) ∧
      (outcome = .accepted → m'.turnover.accepted = w.metric.turnover.accepted + 1) ∧
      (∀ r, outcome = .dropped r → m'.drops = w.metric.drops.record r) ∧
      (outcome = .ignored → m'.body = w.metric.body) ∧
      (active = some true → ∃ v, Work.opening? before = some v ∧ v.time ≤ ev.time ∧
        ∀ slot, w.metric.grid.current = some slot → slot.start ≤ v.time) := by
  obtain ⟨hends₁, hfits₁, rfl⟩ := (run!_eq_pure (.compiled h) ho hpast).1 hrun
  have hreach : Reachable d o (e.run past) := Reachable.run (.compiled h) hpast
  have hhangs : ¬ (e.run past).Hangs (.process ev) := fun ⟨_, hlast, n, hn, hendless⟩ => hcalm hlast n hn hendless
  have hends : e.Ends (past ++ [.process ev]) := (ends_append e past _).2 ⟨hends₁, hhangs, trivial⟩
  have hcalls : ∀ c ∈ past ++ [.process ev], c.InRange :=
    List.forall_mem_append.2 ⟨hpast, List.forall_mem_singleton.2 hev⟩
  have hprocessed : (e.run past).processed < (e.run (past ++ [.process ev])).processed := by
    rw [run_concat, Engine.call, process_of_le hopen hle, apply_processed, ensureStarted_processed]
    exact Nat.lt_succ_self _
  refine ⟨((e.run past).process ev).1, ((e.run past).process ev).2, process!_eq_pure_of_ne hreach ho hev hhangs hfits,
    ?_⟩
  have hfinal : ((e.run past).process ev).1 = e.run (past ++ [.process ev]) := (run_concat e past (.process ev)).symm
  rw [hfinal]
  have hfresh := compile_fresh h m hm
  obtain ⟨before, w, m', hworks, ⟨_, hflagged⟩, hfinal, hconditions, hactive, u, hdeed, hbody⟩ :=
    meets_run (Metric.flagged_logged e.matchers m.plan) h ho hm hcalls hends hprocessed fun hs =>
      Metric.flagged_start _ (hfresh.placed hs) hfresh.active (compile_unseen h m hm).1
  rw [← hconditions] at hbody
  have hplan := hflagged.plan
  have hstill := w.metric.measure_still w.conditions ev (e.matchers.judge ev) u
  have hfate : Metric.Fate w.metric w.conditions ev _ := Metric.fate_measure (u := u) (by rwa [hplan]) hhit
  generalize hr : w.metric.measure w.conditions ev (e.matchers.judge ev) u = r at hbody hstill hfate
  have hwindows : m'.windows = w.metric.windows := by
    have hnote : (r.1.state.note r.2).windows = r.1.state.windows := by cases r.2 <;> rfl
    exact (congrArg Metric.windows hbody :).trans (hnote.trans (congrArg Metric.windows hstill :))
  have hat : (e.run (past ++ [Call.process ev])).isActiveAt m.plan.id ev.time = some w.metric.active := by
    rw [isActiveAt_alone hfinal, hwindows, hactive]
  have hunknown : w.metric.windowUnknown = false ↔ ¬ m.plan.WindowUnknown before := by
    rw [← hflagged.unknown, Bool.not_eq_true]
  have haccepted := hfate.accepted_iff
  have hdropped := hfate.unknown_iff
  have hignored := hfate.ignored_iff
  rw [hplan, hunknown] at haccepted hignored
  rw [hplan, hflagged.unknown] at hdropped
  refine ⟨before, w, r.2, m', hworks, ?_, ?_, hfinal, ?_⟩
  · rw [Work.event?, hdeed]
  · rw [Work.outcome?, hdeed, ← hr]
  · dsimp only
    rw [hat, ← hconditions]
    simp only [Option.some.injEq]
    refine ⟨trivial, haccepted, hdropped, hignored, fun hout => ?_, fun reason hout => ?_, fun hout => ?_,
      hflagged.opening⟩
    · rw [hout] at hbody
      exact (congrArg (·.turnover.accepted) hbody :).trans (congrArg (·.turnover.accepted + 1) hstill :)
    · rw [hout] at hbody
      exact (congrArg Metric.drops hbody :).trans (congrArg (·.drops.record reason) hstill :)
    · rw [hout, hfate.eq_of_ignored hout] at hbody
      exact hbody

/-- A visit before the light has been seen. -/
theorem outcome_of_sample_visits : ∃ e m final ingest, compile (tied visits) { start := some 0 } = .ok e ∧
    m ∈ e.metrics ∧ m.plan.rule.what? = some 2 ∧
    let ev : Event := { atom := 3, time := 4 }
    (e.matchers.judge ev).get 2 = true ∧ e.process! ev = pure (final, ingest) ∧
    ∃ before w, e.works m.plan.id [.process ev] = before ++ [w] ∧ w.outcome? = some (.dropped .conditionUnknown) := by
  have he : compile (tied visits) { start := some 0 } = .ok _ := rfl
  have ho : EngineOptions.InRange { start := some 0 } := by decide
  have hstep := @process!_eq _ _ _ { atom := 3, time := 4 } (.compiled he) ho (by decide)
    fun ⟨_, hlast, _⟩ => absurd hlast (by decide)
  have hpure := hstep.trans (congrArg (guard · _) (by decide +kernel : Engine.callFits _ _ = true))
  obtain ⟨final, ingest, hprocess, before, w, outcome, m', hworks, -, hout, -, -, -, hdropped, -⟩ :=
    outcome_of_sample he ho (.head _) (List.forall_mem_nil _) rfl rfl (by decide) (by decide)
      (fun hlast => absurd hlast (by decide)) (fun hthrow => throw_ne_pure (hthrow.symm.trans hpure)) rfl
      (by decide +kernel)
  have hfinal : final = _ := congrArg Prod.fst (pure_inj.1 (hprocess.symm.trans hpure))
  have hunknown := hdropped.2 ⟨by rw [hfinal]; decide +kernel, ⟨by rintro f ⟨⟩, by rintro g ⟨⟩ l ⟨⟩⟩,
    .inl (by rw [hfinal]; decide +kernel)⟩
  exact ⟨_, _, final, ingest, he, .head _, rfl, by decide +kernel, hprocess, before, w, hworks, hunknown ▸ hout⟩

/-- A machine starts again after almost all of time: a sample without fields or condition, of an active metric with
room, which the program stops at instead of accepting it. -/
theorem no_outcome_after_long_rest : ∃ e e₁ m, compile boots {} = .ok e ∧ m ∈ e.metrics ∧
    m.plan.rule.what? = some 0 ∧ m.plan.gate = none ∧ m.plan.dimensions = [] ∧
    let ev : Event := { atom := 3, time := last - 1 }
    e.run! [.process { atom := 3, time := first }] = pure e₁ ∧ e₁.closed = false ∧ e₁.watermark = some first ∧
    (e.matchers.judge ev).get 0 = true ∧ (e₁.process ev).1.isActiveAt m.plan.id ev.time = some true ∧
    (e₁.process ev).2 = .accepted ∧ e₁.process! ev = throw .overflow := by
  have he : compile boots {} = .ok _ := rfl
  have ho : EngineOptions.InRange {} := by decide
  have hfirst : ∀ c ∈ [Call.process { atom := 3, time := first }], Timely c := by decide
  have hrun := run!_of_timely (.compiled he) ho hfirst (by decide +kernel)
  have hreach := Reachable.run (.compiled he) fun c hc => (hfirst c hc).inRange
  have hstep := @process!_eq _ _ _ { atom := 3, time := last - 1 } hreach ho (by decide)
    fun ⟨_, hlast, _⟩ => absurd hlast (by decide)
  refine ⟨_, _, _, he, .head _, rfl, rfl, rfl, hrun, by decide +kernel, by decide +kernel, by decide +kernel,
    by decide +kernel, by decide +kernel, ?_⟩
  rw [hstep, guard_eq_throw]
  decide +kernel

end EventMetrics.Engine
