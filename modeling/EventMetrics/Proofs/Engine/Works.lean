import EventMetrics.Proofs.Engine.Steps
import EventMetrics.Proofs.Metric.Works

namespace EventMetrics.Engine

variable {e : Engine} {id : String} {c : Call}

def eachWorks (e : Engine) (id : String) (works : Metric → List Work) : List Work :=
  (e.metrics.filter (·.plan.id = id)).flatMap works

def startWorks (e : Engine) (id : String) (time : Int) : List Work :=
  match e.watermark with
  | some _ => []
  | none => e.eachWorks id (·.startWorks e.conditions (e.startTime.getD time))

def askedWorks (e : Engine) (id : String) (reached : Int) : Call → List Work
  | .process ev =>
    if ev.time < reached then [] else e.eachWorks id (·.visitWorks e.conditions ev (e.matchers.judge ev))
  | .advanceTo now => if now < reached then [] else e.eachWorks id (·.advanceWorks e.conditions now false)
  | .shutdown now => e.eachWorks id (·.shutdownWorks e.conditions (max now reached))

def callWorks (e : Engine) (id : String) (c : Call) : List Work :=
  if e.closed then []
  else
    let (started, reached) := e.ensureStarted c.time
    e.startWorks id c.time ++ started.askedWorks id reached c

def works (e : Engine) (id : String) : List Call → List Work
  | [] => []
  | c :: calls => e.callWorks id c ++ (e.call c).works id calls

theorem callWorks_of_closed (hc : e.closed = true) (id : String) (c : Call) : e.callWorks id c = [] := by
  rw [callWorks, if_pos hc]

theorem works_of_closed (hc : e.closed = true) (id : String) (calls : List Call) : e.works id calls = [] := by
  induction calls with
  | nil => rfl
  | cons c calls ih => rw [works, callWorks_of_closed hc, call_of_closed hc, ih, List.append_nil]

theorem works_append (e : Engine) (id : String) (calls more : List Call) :
    e.works id (calls ++ more) = e.works id calls ++ (e.run calls).works id more := by
  induction calls generalizing e with
  | nil => rfl
  | cons c calls ih =>
      rw [List.cons_append, works, works, ih, List.append_assoc]
      rfl

theorem eachWorks_restrict (e : Engine) (id : String) (works : Metric → List Work) :
    (e.restrict id).eachWorks id works = e.eachWorks id works := by
  simp [eachWorks, restrict, List.filter_filter]

theorem eachWorks_alone {m : Metric} (hmetrics : e.metrics = [m]) (works : Metric → List Work) :
    e.eachWorks m.plan.id works = works m := by
  simp [eachWorks, hmetrics]

theorem startWorks_restrict (e : Engine) (id : String) (time : Int) :
    (e.restrict id).startWorks id time = e.startWorks id time := by
  simp only [startWorks, eachWorks_restrict]
  rfl

theorem askedWorks_restrict (e : Engine) (id : String) (reached : Int) (c : Call) :
    (e.restrict id).askedWorks id reached c = e.askedWorks id reached c := by
  cases c <;> simp only [askedWorks, eachWorks_restrict] <;> rfl

theorem callWorks_restrict (h : e.Owning) (id : String) (c : Call) :
    (e.restrict id).callWorks id c = e.callWorks id c := by
  simp only [callWorks, ensureStarted_restrict h, startWorks_restrict, askedWorks_restrict]
  rfl

theorem works_restrict (h : e.Owning) (id : String) (calls : List Call) :
    (e.restrict id).works id calls = e.works id calls := by
  induction calls generalizing e with
  | nil => rfl
  | cons c calls ih => rw [works, works, callWorks_restrict h, call_restrict id h c, ih (h.call c)]

theorem callWorks_of_some (hc : e.closed = false) {τ : Int} (hmark : e.watermark = some τ) (id : String) (c : Call) :
    e.callWorks id c = e.askedWorks id τ c := by
  simp [callWorks, hc, startWorks, hmark, ensureStarted_of_some hmark]

theorem works_started (hc : e.closed = false) (id : String) (c : Call) (calls : List Call) :
    e.works id (c :: calls) = e.startWorks id c.time ++ (e.ensureStarted c.time).1.works id (c :: calls) := by
  have hmark := ensureStarted_watermark e c.time
  have hclosed := (ensureStarted_closed e c.time).trans hc
  rw [works, works, callWorks_of_some hclosed hmark, call_started hc, callWorks, if_neg (by simp [hc]),
    List.append_assoc]

theorem events_startWorks (e : Engine) (id : String) (time : Int) : Work.events (e.startWorks id time) = [] := by
  rw [startWorks]
  cases e.watermark with
  | some _ => rfl
  | none =>
      rw [Work.events, eachWorks, List.filterMap_flatMap]
      exact List.flatMap_eq_nil_iff.2 fun m _ => m.events_startWorks e.conditions _

theorem events_askedWorks {m : Metric} {τ : Int} (hmetrics : e.metrics = [m]) (hc : e.closed = false)
    (hmark : e.watermark = some τ) (id : String) (c : Call) :
    Work.events (e.askedWorks m.plan.id τ c) = (e.heard id c).map (·.1) := by
  simp only [askedWorks, eachWorks_alone hmetrics]
  cases c with
  | process ev =>
      simp only [heard, call, process_eq hc, ensureStarted_of_some hmark]
      by_cases hlate : ev.time < τ
      · rw [if_pos hlate, if_pos hlate, if_neg (Nat.lt_irrefl _)]
        rfl
      · rw [if_neg hlate, if_neg hlate, apply_processed, if_pos (Nat.lt_succ_self _)]
        exact m.events_visitWorks e.conditions ev _
  | advanceTo now =>
      dsimp only
      split
      · rfl
      · exact m.events_advanceWorks e.conditions now false
  | shutdown now => exact m.events_shutdownWorks e.conditions _

theorem events_callWorks {m : Metric} (hmetrics : e.metrics = [m]) (id : String) (c : Call) :
    Work.events (e.callWorks m.plan.id c) = (e.heard id c).map (·.1) := by
  cases hc : e.closed with
  | true =>
      have hnone := history_of_closed hc id [c]
      rw [history, history, List.append_nil] at hnone
      rw [callWorks_of_closed hc, hnone]
      rfl
  | false =>
      have hmark := ensureStarted_watermark e c.time
      have hstarted : ∃ n, (e.ensureStarted c.time).1.metrics = [n] ∧ n.plan = m.plan := by
        cases hw : e.watermark with
        | some w => exact ⟨m, by rw [ensureStarted_of_some hw, hmetrics], rfl⟩
        | none =>
            exact ⟨m.start e.conditions (e.startTime.getD c.time),
              by simp [ensureStarted_of_none hw, hmetrics], by simp⟩
      obtain ⟨n, hn, hplan⟩ := hstarted
      have hasked := events_askedWorks hn ((ensureStarted_closed e c.time).trans hc) hmark id c
      rw [callWorks, if_neg (by simp [hc]), Work.events_append, events_startWorks, List.nil_append, ← hplan, hasked,
        heard_started hc]

theorem events_works {m : Metric} (hmetrics : e.metrics = [m]) (howning : e.Owning) (id : String)
    (calls : List Call) : Work.events (e.works m.plan.id calls) = (e.history id calls).map (·.1) := by
  induction calls generalizing e m with
  | nil => rfl
  | cons c calls ih =>
      have hplans := (keeps_call e c).plans howning
      rw [hmetrics, List.map_singleton, List.map_eq_singleton_iff] at hplans
      obtain ⟨m', hm', hplan⟩ := hplans
      rw [works, history, Work.events_append, List.map_append, events_callWorks hmetrics id, ← hplan,
        ih hm' (howning.call c)]

end EventMetrics.Engine
