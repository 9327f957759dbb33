import EventMetrics.Engine.Health
import EventMetrics.Proofs.Engine.Ending
import EventMetrics.Proofs.Metric.Books

namespace EventMetrics

namespace Condition.Simple

variable {c : Simple} {e : Event} {hits : Hits} {isStart : Bool} {k : DimensionKey} {r : DropReason}

theorem turn_reason (h : (c.turn isStart k).2 = .dropped r) : r = .dimensionLimit := by
  have hturned : ∀ (p : Prop) [Decidable p], (if p then Effect.unchanged else .changed) ≠ .dropped r := by
    intro p _
    split <;> simp
  rw [turn] at h
  dsimp only at h
  split at h
  · cases h
  · split at h
    · cases h
      rfl
    · exact absurd h (hturned _)

theorem onEvent_reason (h : (c.onEvent e hits).2 = .dropped r) : r ≠ .outOfOrder := by
  rw [onEvent] at h
  split at h
  · rw [stopEverything] at h
    dsimp only at h
    split at h <;> cases h
  · split at h
    · cases h
    · cases h
      simp
    · split at h
      · cases h
        simp
      · simp [turn_reason h]

end Condition.Simple

theorem Conditions.onEvent_reason {cs : Conditions} (h : cs.WellFormed) {e : Event} {hits : Hits} :
    ∀ d ∈ (cs.onEvent e hits).2.dropped, d.2 ≠ .outOfOrder := by
  rw [onEvent_eq]
  rintro ⟨i, r⟩ hd
  rcases foldl_offer_dropped h.order hd with hnone | ⟨-, c, -, hdropped⟩
  · cases hnone
  · exact Condition.Simple.onEvent_reason hdropped

theorem DropCounts.outOfOrder_foldl {l : List (Nat × DropReason)} (h : ∀ d ∈ l, d.2 ≠ .outOfOrder)
    (c : DropCounts) : (l.foldl (fun c d => c.record d.2) c).outOfOrder = c.outOfOrder := by
  induction l generalizing c with
  | nil => rfl
  | cons d l ih =>
      obtain ⟨hd, hrest⟩ := List.forall_mem_cons.1 h
      rw [List.foldl_cons, ih hrest]
      exact if_neg (Ne.symm hd)

namespace Engine

variable {d : Definitions} {o : EngineOptions} {e e' final : Engine} {c : Call} {calls : List Call} {reached : Int}

def offered : List Call → Nat
  | [] => 0
  | .process _ :: calls => offered calls + 1
  | .advanceTo _ :: calls => offered calls
  | .shutdown _ :: _ => 0

def met (e : Engine) : Nat := e.processed + e.drops.outOfOrder

theorem met_started (e : Engine) (time : Int) : (e.ensureStarted time).1.met = e.met := by
  cases hw : e.watermark with
  | some w => rw [ensureStarted_of_some hw]
  | none =>
      rw [ensureStarted_of_none hw]
      rfl

theorem apply_outOfOrder (hcs : e.conditions.WellFormed) (ev : Event) :
    (e.apply ev).1.drops.outOfOrder = e.drops.outOfOrder := by
  simp only [apply_eq, each, settle, expecting, learn]
  exact DropCounts.outOfOrder_foldl (Conditions.onEvent_reason hcs) _

theorem Moves.met (h : Moves e reached c e') (hcs : e.conditions.WellFormed) : e'.met = e.met + offered [c] := by
  cases h with
  | process ev _ =>
      rw [Engine.met, apply_processed, apply_outOfOrder hcs, Engine.met, offered, offered]
      omega
  | late | behind | advanceTo | shutdown => rfl

theorem met_run (hopen : e.closed = false) (hcs : e.conditions.WellFormed) (calls : List Call) :
    (e.run calls).met = e.met + offered calls := by
  induction calls generalizing e with
  | nil => rfl
  | cons c calls ih =>
      have hstarted : (e.ensureStarted c.time).1.conditions.WellFormed := ensureStarted_conditions e c.time ▸ hcs
      have hmoves := call_moves hopen c
      have hmet := hmoves.met hstarted
      rw [met_started] at hmet
      have hnext := fun hc => ih ((hmoves.closed_eq hc).trans ((ensureStarted_closed e c.time).trans hopen))
        (hmoves.wellFormed hstarted)
      change ((e.call c).run calls).met = _
      cases c with
      | process ev =>
          rw [hnext (by simp), hmet, offered, offered, offered]
          omega
      | advanceTo now =>
          rw [hnext (by simp), hmet]
          rfl
      | shutdown now =>
          have hclosed : (e.call (.shutdown now)).closed = true := by rw [call, shutdown_eq hopen]
          rw [run_of_closed hclosed, hmet]
          rfl

/-- What is asked of an engine: a call, or the records that wait. -/
inductive Errand
  | call (c : Call)
  | drain

def Errand.call? : Errand → Option Call
  | call c => some c
  | drain => none

def callsOf (errands : List Errand) : List Call := errands.filterMap Errand.call?

/-- The engine that errands come to, if they end, and the records that were taken out on the way. -/
def attend? (e : Engine) : List Errand → Option (Engine × List Record)
  | [] => some (e, [])
  | .call c :: errands => (e.call? c).bind fun e => e.attend? errands
  | .drain :: errands => (e.drain.1.attend? errands).map fun r => (r.1, e.drain.2 ++ r.2)

def regain (e : Engine) (rs : List Record) : Engine := { e with queue := rs ++ e.queue }

variable {rs : List Record} {errands : List Errand} {drained : List Record}

theorem drain_regain (e : Engine) : e.drain.1.regain e.drain.2 = e := by simp [drain, regain]

theorem each_regain (e : Engine) (rs : List Record) (f : Metric → Emitting Metric) (reached : Int) :
    (e.regain rs).each f reached = (e.each f reached).regain rs := by
  simp [each, settle, regain]

theorem ensureStarted_regain (e : Engine) (rs : List Record) (time : Int) :
    (e.regain rs).ensureStarted time = ((e.ensureStarted time).1.regain rs, (e.ensureStarted time).2) := by
  have hmark : (e.regain rs).watermark = e.watermark := rfl
  cases hw : e.watermark with
  | some w => rw [ensureStarted_of_some hw, ensureStarted_of_some (hmark.trans hw)]
  | none =>
      rw [ensureStarted_of_none hw, ensureStarted_of_none (hmark.trans hw)]
      exact congrArg (·, _) (each_regain ..)

theorem apply_regain (e : Engine) (rs : List Record) (ev : Event) :
    ((e.regain rs).apply ev).1 = (e.apply ev).1.regain rs := by
  have hexpecting : (e.regain rs).expecting ev = (e.expecting ev).regain rs :=
    congrArg (fun e : Engine => e.learn ev) (each_regain ..)
  rw [apply_eq, apply_eq, hexpecting]
  exact each_regain ..

/-- No call looks at the records that wait. -/
theorem call_regain (e : Engine) (rs : List Record) (c : Call) : (e.regain rs).call c = (e.call c).regain rs := by
  have hclosed : (e.regain rs).closed = e.closed := rfl
  cases hc : e.closed with
  | true => rw [call_of_closed hc, call_of_closed (hclosed.trans hc)]
  | false =>
      cases c with
      | process ev =>
          rw [call, call, process_eq hc, process_eq (hclosed.trans hc), ensureStarted_regain]
          split
          · rfl
          · exact apply_regain _ rs ev
      | advanceTo now =>
          rw [call, call, advanceTo_eq hc, advanceTo_eq (hclosed.trans hc), ensureStarted_regain]
          split
          · rfl
          · exact each_regain ..
      | shutdown now =>
          rw [call, call, shutdown_eq hc, shutdown_eq (hclosed.trans hc), ensureStarted_regain]
          exact congrArg (fun e : Engine => { e with closed := true }) (each_regain ..)

theorem run_regain (e : Engine) (rs : List Record) (calls : List Call) :
    (e.regain rs).run calls = (e.run calls).regain rs := by
  induction calls generalizing e with
  | nil => rfl
  | cons c calls ih =>
      change ((e.regain rs).call c).run calls = ((e.call c).run calls).regain rs
      rw [call_regain, ih]

/-- With the records back that were taken out, errands come to what their calls come to. -/
theorem run_of_attend? (he : Reachable d o e) (ho : o.InRange) (hcalls : ∀ c ∈ callsOf errands, c.InRange)
    (h : e.attend? errands = some (final, drained)) : e.run (callsOf errands) = final.regain drained := by
  induction errands generalizing e drained with
  | nil =>
      cases h
      rfl
  | cons errand errands ih =>
      cases errand with
      | call c =>
          have hc : c.InRange := hcalls c List.mem_cons_self
          obtain ⟨e₁, hcall, hrest⟩ := Option.bind_eq_some_iff.1 h
          obtain ⟨-, rfl⟩ := (call?_eq_some he ho hc).1 hcall
          exact ih (he.call c hc) (fun k hk => hcalls k (List.mem_cons_of_mem _ hk)) hrest
      | drain =>
          obtain ⟨⟨final', drained'⟩, hrest, hfinal⟩ := Option.map_eq_some_iff.1 h
          cases hfinal
          have hrun := congrArg (Engine.regain · e.drain.2) (ih he.drain hcalls hrest)
          rw [← run_regain] at hrun
          rw [drain_regain] at hrun
          refine hrun.trans ?_
          simp [regain]

theorem ends_regain (e : Engine) (rs : List Record) (calls : List Call) :
    (e.regain rs).Ends calls ↔ e.Ends calls := by
  induction calls generalizing e with
  | nil => rfl
  | cons c calls ih =>
      have hhangs : (e.regain rs).Hangs c ↔ e.Hangs c := by cases c <;> rfl
      rw [Ends, Ends, call_regain, ih, hhangs]

theorem exists_attend? (he : Reachable d o e) (ho : o.InRange) (hcalls : ∀ c ∈ callsOf errands, c.InRange)
    (hends : e.Ends (callsOf errands)) : ∃ r, e.attend? errands = some r := by
  induction errands generalizing e with
  | nil => exact ⟨_, rfl⟩
  | cons errand errands ih =>
      cases errand with
      | call c =>
          have hc : c.InRange := hcalls c List.mem_cons_self
          obtain ⟨r, hr⟩ := ih (he.call c hc) (fun k hk => hcalls k (List.mem_cons_of_mem _ hk)) hends.2
          exact ⟨r, Option.bind_eq_some_iff.2 ⟨_, (call?_eq_some he ho hc).2 ⟨hends.1, rfl⟩, hr⟩⟩
      | drain =>
          rw [← drain_regain e] at hends
          obtain ⟨r, hr⟩ := ih he.drain hcalls ((ends_regain e.drain.1 e.drain.2 _).1 hends)
          exact ⟨_, Option.map_eq_some_iff.2 ⟨r, hr, rfl⟩⟩

def heeded (e : Engine) (id : String) (reached : Int) : Call → List Event
  | .process ev =>
    if ev.time < reached then []
    else (e.metrics.filter (·.plan.id = id)).flatMap fun m =>
      (m.visit e.conditions ev (e.matchers.judge ev)).2.taken ev
  | .advanceTo _ | .shutdown _ => []

def takenBy (e : Engine) (id : String) (c : Call) : List Event :=
  if e.closed then [] else (e.ensureStarted c.time).1.heeded id (e.ensureStarted c.time).2 c

/-- The events of a run that a metric accepts, in their order. -/
def acceptedBy (e : Engine) (id : String) : List Call → List Event
  | [] => []
  | c :: calls => e.takenBy id c ++ (e.call c).acceptedBy id calls

theorem acceptedBy_restrict (h : e.Owning) (id : String) (calls : List Call) :
    (e.restrict id).acceptedBy id calls = e.acceptedBy id calls := by
  induction calls generalizing e with
  | nil => rfl
  | cons c calls ih =>
      have hheeded : ∀ (e : Engine) (reached : Int), (e.restrict id).heeded id reached c = e.heeded id reached c := by
        intro e reached
        cases c with
        | process ev =>
            simp only [heeded, restrict, List.filter_filter, Bool.and_self]
        | advanceTo | shutdown => rfl
      have htaken : (e.restrict id).takenBy id c = e.takenBy id c := by
        simp only [takenBy, ensureStarted_restrict h, hheeded]
        rfl
      rw [acceptedBy, acceptedBy, htaken, call_restrict id h c, ih (h.call c)]

open EventMetrics.Metric (Balanced)

variable {m : Metric} {p : MetricPlan} {evs : List Event}

theorem balanced_started (hmetrics : e.metrics = [m]) (h : Balanced p m e.queue evs) (time : Int) :
    ∃ n, (e.ensureStarted time).1.metrics = [n] ∧ Balanced p n (e.ensureStarted time).1.queue evs := by
  cases hw : e.watermark with
  | some w => exact ⟨m, by rwa [ensureStarted_of_some hw], by rwa [ensureStarted_of_some hw]⟩
  | none =>
      rw [ensureStarted_of_none hw, each_metrics, each_queue, hmetrics]
      exact ⟨_, rfl, by simpa using h.start e.conditions _⟩

theorem Moves.balanced (hmoves : Moves e reached c e') (hmetrics : e.metrics = [m]) (h : Balanced p m e.queue evs) :
    ∃ n, e'.metrics = [n] ∧ Balanced p n e'.queue (evs ++ e.heeded p.id reached c) := by
  cases hmoves with
  | late ev hlt =>
      rw [heeded, if_pos hlt, List.append_nil]
      exact ⟨m, hmetrics, h⟩
  | process ev hle =>
      have hid : (e.metrics.filter (·.plan.id = p.id)) = [m] := by simp [hmetrics, h.plan]
      rw [heeded, if_neg (Int.not_lt.2 hle), hid, List.flatMap_singleton, Living.apply_alone hmetrics]
      exact ⟨_, rfl, h.visit e.conditions ev _⟩
  | behind now hlt =>
      rw [heeded, List.append_nil]
      exact ⟨m, hmetrics, h⟩
  | advanceTo now hle =>
      rw [heeded, List.append_nil, each_metrics, each_queue, hmetrics, List.flatMap_singleton]
      exact ⟨_, rfl, h.advanceTo e.conditions now⟩
  | shutdown now =>
      rw [heeded, List.append_nil]
      refine ⟨(m.shutdown e.conditions (max now reached)).state, by simp [hmetrics], ?_⟩
      change Balanced p _ (e.each (·.shutdown e.conditions (max now reached)) (max now reached)).queue evs
      rw [each_queue, hmetrics, List.flatMap_singleton]
      exact h.shutdown e.conditions _

theorem balanced_call (hmetrics : e.metrics = [m]) (h : Balanced p m e.queue evs) (c : Call) :
    ∃ n, (e.call c).metrics = [n] ∧ Balanced p n (e.call c).queue (evs ++ e.takenBy p.id c) := by
  rw [takenBy]
  cases hc : e.closed with
  | true =>
      rw [if_pos rfl, List.append_nil, call_of_closed hc]
      exact ⟨m, hmetrics, h⟩
  | false =>
      obtain ⟨n, hn, hstarted⟩ := balanced_started hmetrics h c.time
      exact (call_moves hc c).balanced hn hstarted

theorem balanced_run (hmetrics : e.metrics = [m]) (h : Balanced p m e.queue evs) (calls : List Call) :
    ∃ n, (e.run calls).metrics = [n] ∧ Balanced p n (e.run calls).queue (evs ++ e.acceptedBy p.id calls) := by
  induction calls generalizing e m evs with
  | nil => exact ⟨m, hmetrics, by simpa [acceptedBy, run] using h⟩
  | cons c calls ih =>
      obtain ⟨n, hn, hcall⟩ := balanced_call hmetrics h c
      rw [acceptedBy, ← List.append_assoc]
      exact ih hn hcall

/-- The books of every metric balance after any run. -/
theorem balanced_of_compile (h : compile d o = .ok e) (hm : m ∈ e.metrics) (calls : List Call) :
    ∃ n, (e.run calls).metrics.filter (·.plan.id = m.plan.id) = [n] ∧
      Balanced m.plan n ((e.run calls).queue.filter (·.metric = m.plan.id)) (e.acceptedBy m.plan.id calls) := by
  have howning := compile_owning h
  have halone := restrict_alone (Reachable.compiled h).nodup hm
  have hqueue : (e.restrict m.plan.id).queue = [] := by
    obtain ⟨_, -, he⟩ := compile_eq_ok.1 h
    rw [he]
    rfl
  have hfresh : Balanced m.plan m (e.restrict m.plan.id).queue [] := by
    have hturnover := (compile_fresh h m hm).turnover
    rw [hqueue]
    refine ⟨rfl, fun k => ?_, by rw [hturnover]; rfl, fun _ => .nil⟩
    rw [hturnover]
    cases k <;> rfl
  have hrun := balanced_run halone hfresh calls
  rwa [run_restrict howning, acceptedBy_restrict howning] at hrun

theorem exists_of_health (h : compile d o = .ok e) {entry : MetricHealth}
    (hentry : entry ∈ (e.run calls).health.metrics) : ∃ m ∈ e.metrics, ∃ n, entry.metric = m.plan.id ∧
      entry.turnover = n.turnover ∧
      Balanced m.plan n ((e.run calls).queue.filter (·.metric = m.plan.id)) (e.acceptedBy m.plan.id calls) := by
  obtain ⟨n, hn, rfl⟩ := List.mem_map.1 hentry
  have hplan : n.plan ∈ e.metrics.map (·.plan) := by
    rw [← plans_run (compile_owning h) calls]
    exact List.mem_map_of_mem hn
  obtain ⟨m, hm, hmn⟩ := List.mem_map.1 hplan
  obtain ⟨n', hn', hbalanced⟩ := balanced_of_compile h hm calls
  -- no other metric has the id
  obtain rfl : n = n' := by
    have hmem : n ∈ (e.run calls).metrics.filter (·.plan.id = m.plan.id) := List.mem_filter.2 ⟨hn, by simp [hmn]⟩
    rwa [hn', List.mem_singleton] at hmem
  exact ⟨m, hm, n, by rw [hmn], rfl, hbalanced⟩

/-- Whatever is asked of an engine, its health counts for every metric, of each kind, the records of the
metric that were taken out or wait. The records of a metric of single events are those of the events that
it accepted, one for each and in their order. The events before the shutdown were processed or late. -/
theorem books_balance (h : compile d o = .ok e) (ho : o.InRange) (hcalls : ∀ c ∈ callsOf errands, c.InRange)
    (hend : e.attend? errands = some (final, drained)) :
    let records := drained ++ final.queue
    final.health.metrics.map (·.metric) = d.metrics.map (·.id) ∧
    (∀ entry ∈ final.health.metrics, ∀ k,
      entry.turnover.emitted k = records.countP fun r => r.metric = entry.metric ∧ r.kind = k) ∧
    (∀ m ∈ e.metrics, ∀ what, m.plan.rule = .passed what → ∀ entry ∈ final.health.metrics,
      entry.metric = m.plan.id →
        List.Forall₂ m.plan.Passes (Record.events (records.filter (·.metric = m.plan.id)))
          (e.acceptedBy m.plan.id (callsOf errands)) ∧
        entry.turnover.accepted = (e.acceptedBy m.plan.id (callsOf errands)).length ∧
        entry.turnover.events = entry.turnover.accepted) ∧
    final.health.processed + final.health.drops.count .outOfOrder = offered (callsOf errands) := by
  intro records
  have hrun : e.run (callsOf errands) = final.regain drained := run_of_attend? (.compiled h) ho hcalls hend
  have hqueue : (e.run (callsOf errands)).queue = records := congrArg Engine.queue hrun
  have hhealth : final.health = (e.run (callsOf errands)).health := by
    rw [hrun]
    rfl
  rw [hhealth]
  obtain ⟨compiled, hcompiled, he⟩ := compile_eq_ok.1 h
  refine ⟨?_, fun entry hentry k => ?_, fun m hm what hrule entry hentry hid => ?_, ?_⟩
  · obtain ⟨-, -, -, -, -, -, hmetrics⟩ := Definitions.compile_eq_ok.1 hcompiled
    have hplans := congrArg (List.map MetricPlan.id) (plans_run (compile_owning h) (callsOf errands))
    rw [List.map_map, List.map_map] at hplans
    rw [← map_id_eq (fun _ _ => Metric.compile_id) hmetrics, health, List.map_map]
    refine hplans.trans ?_
    rw [he]
    rfl
  · obtain ⟨m, -, n, hid, hturnover, hbalanced⟩ := exists_of_health h hentry
    rw [hturnover, hid, hbalanced.emitted, hqueue, List.countP_filter]
    simp [and_comm]
  · obtain ⟨m', hm', n, hid', hturnover, hbalanced⟩ := exists_of_health h hentry
    obtain rfl : m' = m := List.inj_on_of_nodup_map (Reachable.compiled h).nodup hm' hm (hid'.symm.trans hid)
    have hp : m'.plan.isBucketed = false := by rw [MetricPlan.isBucketed, hrule]
    rw [hturnover, ← hqueue]
    exact ⟨hbalanced.passed hp, hbalanced.accepted, hbalanced.events_eq_accepted hp⟩
  · have hmet := met_run (e := e) (by rw [he]) (Reachable.compiled h).wellFormed (callsOf errands)
    have hnone : e.met = 0 := by
      rw [he]
      rfl
    rwa [hnone, Nat.zero_add] at hmet

/-- The visits to a house, by tens, and each opening of its door. -/
def porch : Definitions where
  matchers := [⟨"open", .simple 1 []⟩]
  metrics := [
    { id := "visits", measure := .count "open", bucket := some ⟨10⟩ },
    { id := "opened", measure := .event "open" }]

/-- Two visits with the records taken out in between, a visit that is told of too late, and one after the end. -/
theorem books_balance_porch :
    let opening (time : Int) : Errand := .call (.process { atom := 1, time })
    let errands := [opening 5, .drain, opening 32, opening 7, .drain, .call (.shutdown 40), opening 50]
    ∃ e m what final drained, compile porch {} = .ok e ∧ m ∈ e.metrics ∧ m.plan.rule = .passed what ∧
      (∀ c ∈ callsOf errands, c.InRange) ∧ e.attend? errands = some (final, drained) ∧
      final.health.metrics.map (·.metric) = ["visits", "opened"] ∧
      (∀ entry ∈ final.health.metrics, entry.metric = m.plan.id → entry.turnover.events = 2) ∧
      final.health.processed + final.health.drops.count .outOfOrder = 3 := by
  intro opening errands
  have he : compile porch {} = .ok _ := rfl
  have ho : EngineOptions.InRange {} := by decide
  have hcalls : ∀ c ∈ callsOf errands, c.InRange := by decide
  obtain ⟨⟨final, drained⟩, hend⟩ := exists_attend? (.compiled he) ho hcalls (ends_of_timely (by decide))
  obtain ⟨hids, -, hopened, hmet⟩ := books_balance he ho hcalls hend
  refine ⟨_, _, _, final, drained, he, .tail _ (.head _), rfl, hcalls, hend, hids, fun entry hentry hid => ?_, hmet⟩
  obtain ⟨-, haccepted, hevents⟩ := hopened _ (.tail _ (.head _)) _ rfl entry hentry hid
  rw [hevents, haccepted]
  decide +kernel

end Engine

end EventMetrics
