import EventMetrics.Proofs.Engine.Checked
import EventMetrics.Proofs.Engine.Settled

namespace EventMetrics.Engine

open Instant (first last InRange)

variable {d : Definitions} {o : EngineOptions} {e final : Engine} {id : String} {c : Call} {calls : List Call}

theorem hangs_iff_restrict (e : Engine) (c : Call) : e.Hangs c ↔ ∃ id ∈ e.metricIds, (e.restrict id).Hangs c := by
  cases c with
  | process ev =>
      constructor
      · rintro ⟨hopen, hlast, m, hm, hendless⟩
        exact ⟨m.plan.id, List.mem_map_of_mem hm, hopen, hlast, m, List.mem_filter.2 ⟨hm, decide_eq_true rfl⟩, hendless⟩
      · rintro ⟨id, -, hopen, hlast, m, hm, hendless⟩
        exact ⟨hopen, hlast, m, (List.mem_filter.1 hm).1, hendless⟩
  | advanceTo | shutdown => simp [Hangs]

theorem mem_metricIds_restrict {id' : String} : id' ∈ (e.restrict id).metricIds ↔ id' = id ∧ id ∈ e.metricIds := by
  simp only [metricIds, restrict, List.mem_map, List.mem_filter, decide_eq_true_eq]
  constructor
  · rintro ⟨m, ⟨hm, rfl⟩, rfl⟩
    exact ⟨rfl, m, hm, rfl⟩
  · rintro ⟨rfl, m, hm, rfl⟩
    exact ⟨m, ⟨hm, rfl⟩, rfl⟩

theorem callFits_restrict (h : e.Owning) (hid : id ∈ e.metricIds) (c : Call) :
    (e.restrict id).callFits c = ((e.callWorks id c).all Work.fits && e.countsFit c) := by
  have hcounts : (e.restrict id).countsFit c = e.countsFit c := by
    cases c with
    | process ev =>
        simp only [countsFit, ensureStarted_restrict h]
        rfl
    | advanceTo | shutdown => rfl
  rw [callFits, hcounts, Bool.eq_iff_iff]
  simp [mem_metricIds_restrict, hid, callWorks_restrict h]

theorem callFits_iff_restrict (h : e.Owning) (hid : id ∈ e.metricIds) (c : Call) :
    e.callFits c = true ↔ ∀ id ∈ e.metricIds, (e.restrict id).callFits c = true := by
  rw [callFits, Bool.and_eq_true, List.all_eq_true]
  constructor
  · rintro ⟨hworks, hcounts⟩ id hid
    rw [callFits_restrict h hid, hworks id hid, hcounts, Bool.true_and]
  · intro hall
    have hboth := fun id hid => Bool.and_eq_true_iff.1 ((callFits_restrict h hid c).symm.trans (hall id hid))
    exact ⟨fun id hid => (hboth id hid).1, (hboth id hid).2⟩

theorem ends_iff_restrict (he : Reachable d o e) (hcalls : ∀ c ∈ calls, c.InRange) :
    e.Ends calls ↔ ∀ id ∈ e.metricIds, (e.restrict id).Ends calls := by
  induction calls generalizing e with
  | nil => simp [Ends]
  | cons c calls ih =>
      obtain ⟨hc, hcalls⟩ := List.forall_mem_cons.1 hcalls
      simp only [Ends, call_restrict _ he.owning, ih (he.call c hc) hcalls, metricIds_call he.owning,
        hangs_iff_restrict e c, not_exists, not_and, forall_and]

theorem runFits_iff_restrict (he : Reachable d o e) (hid : id ∈ e.metricIds) (hcalls : ∀ c ∈ calls, c.InRange) :
    e.runFits calls = true ↔ ∀ id ∈ e.metricIds, (e.restrict id).runFits calls = true := by
  induction calls generalizing e with
  | nil => simp [runFits]
  | cons c calls ih =>
      obtain ⟨hc, hcalls⟩ := List.forall_mem_cons.1 hcalls
      simp only [runFits, Bool.and_eq_true, callFits_iff_restrict he.owning hid, call_restrict _ he.owning,
        ih (he.call c hc) (metricIds_call he.owning c ▸ hid) hcalls, metricIds_call he.owning, forall_and]

/-- The engine of all metrics reports of each what the engine of this one does by itself: what many metrics emit in
turns is, for each of them, what it emits alone. It comes to something just if the engines of all metrics do. -/
theorem queue_forMetric (h : compile d o = .ok e) (ho : o.InRange) (hid : id ∈ d.metrics.map (·.id)) :
    ∃ d' e', d.forMetric? id = some d' ∧ compile d' o = .ok e' ∧ ∀ calls, (∀ c ∈ calls, c.InRange) →
      (∀ final, e.run! calls = pure final →
        ∃ final', e'.run! calls = pure final' ∧ final.queue.filter (·.metric = id) = final'.queue) ∧
      ((∀ id ∈ d.metrics.map (·.id), ∃ d' e' final', d.forMetric? id = some d' ∧ compile d' o = .ok e' ∧
        e'.run! calls = pure final') → ∃ final, e.run! calls = pure final) := by
  have hreach : Reachable d o e := .compiled h
  have hforMetric : ∀ id ∈ d.metrics.map (·.id), ∃ d', d.forMetric? id = some d' := fun id hid =>
    Option.isSome_iff_exists.1 (by simpa [Definitions.forMetric?] using hid)
  have hids : e.metricIds = d.metrics.map (·.id) := metricIds_compile h
  obtain ⟨d', hd⟩ := hforMetric id hid
  refine ⟨d', e.restrict id, hd, compile_forMetric? h hd, fun calls hcalls => ⟨fun final hrun => ?_, fun halone => ?_⟩⟩
  · obtain ⟨hends, hfits, rfl⟩ := (run!_eq_pure hreach ho hcalls).1 hrun
    refine ⟨(e.run calls).restrict id, ?_, rfl⟩
    refine (run!_eq_pure (.compiled (compile_forMetric? h hd)) ho hcalls).2 ⟨?_, ?_, ?_⟩
    · exact (ends_iff_restrict hreach hcalls).1 hends id (hids ▸ hid)
    · exact (runFits_iff_restrict hreach (hids ▸ hid) hcalls).1 hfits id (hids ▸ hid)
    · exact run_restrict hreach.owning calls
  · have hboth : ∀ id ∈ e.metricIds, (e.restrict id).Ends calls ∧ (e.restrict id).runFits calls = true := by
      intro id hid
      obtain ⟨d', e', final', hd', he', hrun⟩ := halone id (hids ▸ hid)
      obtain rfl := Except.ok.inj ((compile_forMetric? h hd').symm.trans he')
      obtain ⟨hends, hfits, -⟩ := (run!_eq_pure (.compiled he') ho hcalls).1 hrun
      exact ⟨hends, hfits⟩
    exact ⟨_, (run!_eq_pure hreach ho hcalls).2 ⟨(ends_iff_restrict hreach hcalls).2 fun id hid => (hboth id hid).1,
      (runFits_iff_restrict hreach (hids ▸ hid) hcalls).2 fun id hid => (hboth id hid).2, rfl⟩⟩

/-- Somebody comes in while the door is open, and the minute ends. -/
theorem queue_forMetric_doors : ∃ e d' e' final final', compile doors {} = .ok e ∧
    "time" ∈ doors.metrics.map (·.id) ∧ doors.forMetric? "time" = some d' ∧ compile d' {} = .ok e' ∧
    let calls := [Call.process { atom := 1, time := 5 }, .process { atom := 1, time := 20 },
      .process { atom := 2, time := 30 }, .shutdown 60000000005]
    (∀ c ∈ calls, c.InRange) ∧ e.run! calls = pure final ∧ e'.run! calls = pure final' ∧
    final.queue.length = 2 ∧ final'.queue.length = 1 ∧ final.queue.filter (·.metric = "time") = final'.queue := by
  have he : compile doors {} = .ok _ := rfl
  have ho : EngineOptions.InRange {} := by decide
  have htimely : ∀ c ∈ [Call.process { atom := 1, time := 5 }, .process { atom := 1, time := 20 },
      .process { atom := 2, time := 30 }, .shutdown 60000000005], Timely c := by decide
  have hcalls := fun c hc => (htimely c hc).inRange
  have hrun := run!_of_timely (.compiled he) ho htimely (by decide +kernel)
  obtain ⟨d', e', hd', he', hsame⟩ := queue_forMetric he ho (by decide : "time" ∈ doors.metrics.map (·.id))
  obtain ⟨final', hrun', hqueue⟩ := (hsame _ hcalls).1 _ hrun
  refine ⟨_, d', e', _, final', he, by decide, hd', he', hcalls, hrun, hrun', by decide +kernel, ?_, hqueue⟩
  rw [← hqueue]
  decide +kernel

/-- The starts of a machine, each passed on as it comes, and counted. -/
def bootsPassed : Definitions :=
  { boots with metrics := boots.metrics ++ [{ id := "starts", measure := .event "boot" }] }

/-- Of two starts with almost all of time between them the engine of both metrics passes on none: it stops where the
second bucket gets its number. By itself the other metric passes on both. -/
theorem one_metric_stops_another : ∃ e d' e', compile bootsPassed {} = .ok e ∧
    bootsPassed.forMetric? "starts" = some d' ∧ compile d' {} = .ok e' ∧
    let calls := [Call.process { atom := 3, time := first }, .process { atom := 3, time := last - 1 }]
    (∀ c ∈ calls, c.InRange) ∧ e.run! calls = throw .overflow ∧
    ∃ final', e'.run! calls = pure final' ∧ final'.queue.length = 2 := by
  have ho : EngineOptions.InRange {} := by decide
  have htimely : ∀ c ∈ [Call.process { atom := 3, time := first }, .process { atom := 3, time := last - 1 }],
      Timely c := by decide
  have hcalls := fun c hc => (htimely c hc).inRange
  obtain ⟨e, d', e', he, hd, he', hfails, hfits, hlength⟩ : ∃ e d' e', compile bootsPassed {} = .ok e ∧
      bootsPassed.forMetric? "starts" = some d' ∧ compile d' {} = .ok e' ∧
      let calls := [Call.process { atom := 3, time := first }, .process { atom := 3, time := last - 1 }]
      e.runFits calls = false ∧ e'.runFits calls = true ∧ (e'.run calls).queue.length = 2 :=
    ⟨_, _, _, rfl, rfl, rfl, by decide +kernel⟩
  refine ⟨e, d', e', he, hd, he', hcalls, ?_, _, run!_of_timely (.compiled he') ho htimely hfits, hlength⟩
  rw [run!_eq (.compiled he) ho hcalls (ends_of_timely htimely), hfails]
  rfl

end EventMetrics.Engine
