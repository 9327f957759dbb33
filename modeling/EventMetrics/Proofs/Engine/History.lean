import EventMetrics.Proofs.Engine.Ticks
import EventMetrics.Proofs.Metric.Life

namespace EventMetrics.Engine

open EventMetrics.Metric (Life Fresh)
open Instant (last)

variable {e : Engine} {id : String} {d : Definitions} {o : EngineOptions}

def accepted (e : Engine) (id : String) : Nat :=
  (e.metrics.find? (·.plan.id = id)).elim 0 (·.turnover.accepted)

def openSlot (e : Engine) (id : String) : Option Slot :=
  (e.metrics.find? (·.plan.id = id)).bind (·.grid.current)

def heard (e : Engine) (id : String) (c : Call) : History :=
  match c with
  | .process ev =>
    if e.processed < (e.call c).processed then [(ev, decide (e.accepted id < (e.call c).accepted id))] else []
  | .advanceTo _ | .shutdown _ => []

/-- The events that an engine processes, and which of them a metric accepts. -/
def history (e : Engine) (id : String) : List Call → History
  | [] => []
  | c :: calls => e.heard id c ++ (e.call c).history id calls

theorem history_of_closed (hc : e.closed = true) (id : String) (calls : List Call) : e.history id calls = [] := by
  induction calls with
  | nil => rfl
  | cons c calls ih =>
      rw [history, call_of_closed hc, ih, List.append_nil]
      cases c with
      | process ev => rw [heard, call_of_closed hc, if_neg (Nat.lt_irrefl _)]
      | advanceTo | shutdown => rfl

theorem accepted_restrict (e : Engine) (id : String) : (e.restrict id).accepted id = e.accepted id := by
  simp [accepted, restrict, List.find?_filter]

theorem accepted_started (e : Engine) (id : String) (time : Int) :
    (e.ensureStarted time).1.accepted id = e.accepted id := by
  cases hw : e.watermark with
  | some w => rw [ensureStarted_of_some hw]
  | none =>
      simp only [accepted, ensureStarted_of_none hw, each_metrics, List.find?_map, Function.comp_def, Metric.start_plan]
      cases e.metrics.find? (·.plan.id = id) <;> simp

theorem openSlot_restrict (e : Engine) (id : String) : (e.restrict id).openSlot id = e.openSlot id := by
  simp [openSlot, restrict, List.find?_filter]

theorem history_restrict (h : e.Owning) (id : String) (calls : List Call) :
    (e.restrict id).history id calls = e.history id calls := by
  induction calls generalizing e with
  | nil => rfl
  | cons c calls ih =>
      have hc := call_restrict id h c
      have hheard : (e.restrict id).heard id c = e.heard id c := by
        cases c with
        | process ev =>
            simp only [heard, hc, accepted_restrict]
            rfl
        | advanceTo now => rfl
        | shutdown now => rfl
      rw [history, history, hheard, hc, ih (h.call c)]

/-- A call of a run before its end; events come before the end of time. -/
def Ordinary : Call → Prop
  | .process ev => Instant.InRange ev.time ∧ ev.time < last
  | .advanceTo now => Instant.InRange now
  | .shutdown _ => False

instance : DecidablePred Ordinary
  | .process ev => inferInstanceAs (Decidable (Instant.InRange ev.time ∧ ev.time < last))
  | .advanceTo now => inferInstanceAs (Decidable (Instant.InRange now))
  | .shutdown _ => inferInstanceAs (Decidable False)

/-- The instant at which an engine starts, given the first calls of a run. -/
def startOf (e : Engine) (calls : List Call) (now : Int) : Int :=
  e.startTime.getD ((calls.head?.map Call.time).getD now)

/-- An engine whose one metric has lived since `s`. -/
structure Living (e₀ : Engine) (m₀ : Metric) (s : Int) (H : History) (e : Engine) (m : Metric) (τ : Int) :
    Prop where
  matchers : e.matchers = e₀.matchers
  metrics : e.metrics = [m]
  watermark : e.watermark = some τ
  closed : e.closed = false
  life : Life e₀.matchers e₀.conditions m₀ s H e.conditions τ m e.queue

namespace Living

variable {e₀ : Engine} {m₀ m : Metric} {s τ : Int} {H : History}

theorem started (hmetrics : e.metrics = [m₀]) (hmark : e.watermark = none) (hclosed : e.closed = false)
    (hqueue : e.queue = []) (time : Int) :
    Living e m₀ (e.startTime.getD time) [] (e.ensureStarted time).1
      (m₀.start e.conditions (e.startTime.getD time)) (e.startTime.getD time) := by
  rw [ensureStarted_of_none hmark]
  refine ⟨rfl, by simp [hmetrics], rfl, hclosed, ?_⟩
  have hq : (e.each (fun m => ⟨m.start e.conditions (e.startTime.getD time), []⟩)
      (e.startTime.getD time)).queue = [] := by simp [hqueue, hmetrics]
  rw [hq]
  exact .start

theorem advanceTo (h : Living e₀ m₀ s H e m τ) {now : Int} (hnow : Instant.InRange now) :
    ∃ m' τ', Living e₀ m₀ s H (e.advanceTo now) m' τ' := by
  rw [advanceTo_eq h.closed, ensureStarted_of_some h.watermark]
  split
  next => exact ⟨m, τ, h⟩
  next hle =>
    refine ⟨(m.advanceTo e.conditions now).state, now, h.matchers, by simp [h.metrics], rfl, h.closed, ?_⟩
    rw [each_queue, h.metrics, List.flatMap_singleton]
    exact h.life.tick now (by omega) hnow.2

theorem apply_alone (hmetrics : e.metrics = [m]) (ev : Event) : (e.apply ev).1 =
    { e with
      conditions := (e.conditions.onEvent ev (e.matchers.judge ev)).1
      metrics := [(m.visit e.conditions ev (e.matchers.judge ev)).1.state]
      watermark := some ev.time
      queue := e.queue ++ (m.visit e.conditions ev (e.matchers.judge ev)).1.records
      processed := e.processed + 1
      drops := (e.condition ev).2.dropped.foldl (fun c d => c.record d.2) e.drops } := by
  simp [apply_eq, each, settle, expecting, learn, condition, hear, Metric.visit, hmetrics]

theorem process (h : Living e₀ m₀ s H e m τ) (hm : Fresh m₀) (ho : Metric.Owned m₀.plan m₀ [])
    (hs : Instant.InRange s) {ev : Event} (hlast : ev.time < last) :
    ∃ m' τ', Living e₀ m₀ s (H ++ e.heard m₀.plan.id (.process ev)) (e.process ev).1 m' τ' := by
  have hcall : (e.call (.process ev)) = (e.process ev).1 := rfl
  simp only [heard, hcall]
  rw [process_eq h.closed, ensureStarted_of_some h.watermark]
  split
  next =>
    refine ⟨m, τ, ?_⟩
    simp only [Nat.lt_irrefl, if_false, List.append_nil]
    exact ⟨h.matchers, h.metrics, h.watermark, h.closed, h.life⟩
  next hle =>
    have hlife := h.life.event ev (by omega) hlast
    rw [← h.matchers] at hlife
    have hid : ∀ {e : Engine} {m : Metric}, e.metrics = [m] → m.plan = m₀.plan →
        e.accepted m₀.plan.id = m.turnover.accepted := fun hmetrics hplan => by
      simp [accepted, hmetrics, hplan]
    have hbefore : e.accepted m₀.plan.id = H.countP (·.2) :=
      (hid h.metrics (h.life.owned ho).plan).trans (h.life.accepted_eq hm hs)
    have hafter := (hid (e := (e.apply ev).1) (congrArg Engine.metrics (apply_alone h.metrics ev))
      (hlife.owned ho).plan).trans (hlife.accepted_eq hm hs)
    have hraised : decide (e.accepted m₀.plan.id < (e.apply ev).1.accepted m₀.plan.id) =
        (m.visit e.conditions ev (e.matchers.judge ev)).2.isAccepted := by
      rw [hbefore, hafter, List.countP_append]
      cases (m.visit e.conditions ev (e.matchers.judge ev)).2.isAccepted <;> simp
    refine ⟨(m.visit e.conditions ev (e.matchers.judge ev)).1.state, ev.time, ?_⟩
    rw [hraised, apply_alone h.metrics]
    simp only [Nat.lt_succ_self, if_true]
    exact ⟨h.matchers, rfl, rfl, h.closed, h.matchers ▸ hlife⟩

theorem run (h : Living e₀ m₀ s H e m τ) (hm : Fresh m₀) (ho : Metric.Owned m₀.plan m₀ [])
    (hs : Instant.InRange s) (calls : List Call) (hcalls : ∀ c ∈ calls, Ordinary c) :
    ∃ m' τ', Living e₀ m₀ s (H ++ e.history m₀.plan.id calls) (e.run calls) m' τ' := by
  induction calls generalizing e m τ H with
  | nil => exact ⟨m, τ, by simpa [history, Engine.run] using h⟩
  | cons c calls ih =>
      have hc := hcalls c List.mem_cons_self
      have hrest := fun c h => hcalls c (List.mem_cons_of_mem _ h)
      rw [history, ← List.append_assoc]
      cases c with
      | process ev =>
          obtain ⟨m', τ', h'⟩ := h.process hm ho hs hc.2
          exact ih h' hrest
      | advanceTo now =>
          obtain ⟨m', τ', h'⟩ := h.advanceTo hc
          exact ih (e := e.call (.advanceTo now)) (by rwa [heard, List.append_nil]) hrest
      | shutdown now => exact hc.elim

end Living

theorem heard_started (hclosed : e.closed = false) (id : String) (c : Call) :
    (e.ensureStarted c.time).1.heard id c = e.heard id c := by
  simp only [heard, call_started hclosed, accepted_started, ensureStarted_processed]

theorem history_started (hclosed : e.closed = false) (id : String) (calls : List Call) (now : Int) :
    (e.ensureStarted ((calls.head?.map Call.time).getD now)).1.history id calls = e.history id calls := by
  cases calls with
  | nil => rfl
  | cons c calls =>
      change (e.ensureStarted c.time).1.history id (c :: calls) = _
      rw [history, history, heard_started hclosed, call_started hclosed]

theorem call_restrict_started (he : e.Owning) (hopen : e.closed = false) (id : String) (c : Call) :
    ((e.ensureStarted c.time).1.restrict id).call c = (e.call c).restrict id := by
  rw [call_restrict id (he.ensureStarted c.time), call_started hopen]

theorem run_started (hopen : e.closed = false) (hd : e.Dated) (time : Int) (id : String) (calls : List Call)
    (now : Int) :
    ((e.ensureStarted time).1.run calls).shutdown now = (e.run calls).shutdown now ∧
      (e.ensureStarted time).1.history id calls = e.history id calls := by
  have hhistory := history_started hopen id calls time
  rw [hd.ensureStarted _ time] at hhistory
  refine ⟨?_, hhistory⟩
  cases calls with
  | nil =>
      rw [hd.ensureStarted time now]
      exact call_started hopen (.shutdown now)
  | cons c calls =>
      rw [hd.ensureStarted time c.time, run, run, List.foldl_cons, List.foldl_cons, call_started hopen]

theorem ensureStarted_run (hclosed : e.closed = false) {calls : List Call} {now τ : Int}
    (hmark : ((e.ensureStarted ((calls.head?.map Call.time).getD now)).1.run calls).watermark = some τ) :
    (e.run calls).ensureStarted now = ((e.ensureStarted ((calls.head?.map Call.time).getD now)).1.run calls, τ) := by
  cases calls with
  | nil => exact Prod.ext rfl (Option.some.inj ((ensureStarted_watermark e now).symm.trans hmark))
  | cons c calls =>
      have hrun : (e.ensureStarted c.time).1.run (c :: calls) = e.run (c :: calls) := by
        simp only [run, List.foldl_cons, call_started hclosed]
      change (e.run (c :: calls)).ensureStarted now = ((e.ensureStarted c.time).1.run (c :: calls), τ)
      rw [← hrun]
      exact ensureStarted_of_some hmark now

theorem Ordinary.inRange {c : Call} (h : Ordinary c) : c.InRange := by
  cases c with
  | process ev => exact h.1
  | advanceTo now => exact h
  | shutdown now => exact h.elim

theorem startOf_inRange (hstart : ∀ s, e.startTime = some s → Instant.InRange s) {calls : List Call}
    (hcalls : ∀ c ∈ calls, c.InRange) {now : Int} (hnow : Instant.InRange now) :
    Instant.InRange (e.startOf calls now) := by
  rw [startOf]
  cases hs : e.startTime with
  | some s => exact hstart s hs
  | none =>
      cases calls with
      | nil => exact hnow
      | cons c calls => exact hcalls c List.mem_cons_self

theorem shutdown_alone {m₀ : Metric} (hmetrics : e.metrics = [m₀]) (hmark : e.watermark = none)
    (hclosed : e.closed = false) (hqueue : e.queue = []) (hm : Fresh m₀) (ho : Metric.Owned m₀.plan m₀ [])
    (hstart : ∀ s, e.startTime = some s → Instant.InRange s) {calls : List Call}
    (hcalls : ∀ c ∈ calls, Ordinary c) {now : Int} (hnow : Instant.InRange now) :
    ∃ cs m τ t rs, τ ≤ t ∧ now ≤ t ∧ t ≤ last ∧ Instant.InRange (e.startOf calls now) ∧
      Life e.matchers e.conditions m₀ (e.startOf calls now) (e.history m₀.plan.id calls) cs τ m rs ∧
      ((e.run calls).advanceTo t).metrics = [(m.advanceTo cs t).state] ∧
      ((e.run calls).shutdown now).watermark = some t ∧
      ((e.run calls).shutdown now).metrics = [(m.shutdown cs t).state] ∧
      ((e.run calls).shutdown now).queue = rs ++ (m.shutdown cs t).records := by
  have hrange := startOf_inRange hstart (fun c hc => (hcalls c hc).inRange) hnow
  obtain ⟨m, τ, h⟩ := (Living.started hmetrics hmark hclosed hqueue ((calls.head?.map Call.time).getD now)).run hm ho
    hrange calls hcalls
  have hstarted := ensureStarted_run hclosed h.watermark
  have hopen : (e.run calls).closed = false := by
    rw [← ensureStarted_closed (e.run calls) now, hstarted]
    exact h.closed
  have hlate := (h.life.onTime hm hrange).inRange.2
  have hlife := h.life
  have htick := advanceTo_max hopen now
  rw [history_started hclosed] at hlife
  rw [hstarted] at htick
  rw [shutdown_eq hopen, hstarted]
  refine ⟨_, m, τ, max now τ, _, by omega, by omega, Int.max_le.2 ⟨hnow.2, hlate⟩, hrange, hlife, ?_, rfl, ?_, ?_⟩
  · simp [htick, h.metrics]
  · simp [h.metrics]
  · simp [h.metrics]

theorem compile_fresh (h : compile d o = .ok e) : ∀ m ∈ e.metrics, Fresh m := by
  obtain ⟨c, hc, rfl⟩ := compile_eq_ok.1 h
  obtain ⟨-, -, -, -, -, -, hmetrics⟩ := Definitions.compile_eq_ok.1 hc
  intro m hm
  obtain ⟨dm, -, hdm⟩ := Check.exists_of_mem_right hmetrics hm
  obtain ⟨windows, rule, gate, hwindows, hsize, -, hrule, -, rfl⟩ := Metric.compile_eq_ok.1 hdm
  refine ⟨fun hb => ?_, Activations.compile_expiry hwindows, rfl, rfl, rfl, rfl, rfl, rfl⟩
  rw [MetricPlan.compileRule_isBucketed hrule] at hb
  refine ⟨by simpa [hb] using hsize, ?_⟩
  change dm.bucketSize ≤ last
  rw [Definition.Metric.bucketSize]
  cases dm.bucket with
  | none => decide
  | some b => exact (Instant.clamp_inRange _).2

/-- What a run and the shutdown after it come to, for one of the metrics of an engine; the bucket that the
shutdown finds open is the one that a tick at its instant would leave open. -/
theorem shutdown_finds (h : compile d o = .ok e) (ho : o.InRange) {m₀ : Metric} (hm : m₀ ∈ e.metrics)
    {calls : List Call} (hcalls : ∀ c ∈ calls, Ordinary c) {now : Int} (hnow : Instant.InRange now) :
    ∃ cs m τ t rs, τ ≤ t ∧ now ≤ t ∧ t ≤ last ∧ Instant.InRange (e.startOf calls now) ∧
      Life e.matchers e.conditions m₀ (e.startOf calls now) (e.history m₀.plan.id calls) cs τ m rs ∧
      ((e.run calls).shutdown now).watermark = some t ∧
      ((e.run calls).shutdown now).accepted m₀.plan.id = (m.shutdown cs t).state.turnover.accepted ∧
      ((e.run calls).shutdown now).queue.filter (·.metric = m₀.plan.id) = rs ++ (m.shutdown cs t).records ∧
      ((e.run calls).advanceTo t).openSlot m₀.plan.id = (m.advance cs t false).state.grid.current := by
  have howning := compile_owning h
  have halone := restrict_alone (Reachable.compiled h).nodup hm
  have hfinal : ∀ c, ((e.restrict m₀.plan.id).run calls).call c = ((e.run calls).call c).restrict m₀.plan.id := by
    intro c
    rw [run_restrict howning]
    exact call_restrict m₀.plan.id (howning.run calls) c
  obtain ⟨c, -, he⟩ := compile_eq_ok.1 h
  obtain ⟨cs, m, τ, t, rs, hτ, hnow, ht, hrange, hlife, hticks, hmark, hmetrics, hqueue⟩ :=
    shutdown_alone halone (by rw [he]; rfl) (by rw [he]; rfl) (by rw [he]; rfl) (compile_fresh h m₀ hm)
      (howning m₀ hm) (by rw [he]; exact ho) hcalls hnow
  have hshut := hfinal (.shutdown now)
  have htick := hfinal (.advanceTo t)
  simp only [call] at hshut htick
  rw [htick] at hticks
  rw [hshut] at hmark hmetrics hqueue
  rw [history_restrict howning] at hlife
  have hid : ∀ {e' : Engine} {n : Metric}, (e'.restrict m₀.plan.id).metrics = [n] → n.plan.id = m₀.plan.id := by
    intro e' n hn
    have hmem : n ∈ (e'.restrict m₀.plan.id).metrics := by simp [hn]
    simpa using (List.mem_filter.1 hmem).2
  refine ⟨cs, m, τ, t, rs, hτ, hnow, ht, hrange, hlife, hmark, ?_, hqueue, ?_⟩
  · rw [← accepted_restrict, accepted, hmetrics]
    simp [hid hmetrics]
  · have hgrid : (m.advanceTo cs t).state.grid = (m.advance cs t false).state.grid :=
      (congrArg Metric.grid (Metric.body_flushPending (m.advance cs t false).state) :)
    rw [← openSlot_restrict, openSlot, hticks, ← hgrid]
    simp [hid hticks]

theorem shutdown_life (h : compile d o = .ok e) (ho : o.InRange) {m₀ : Metric} (hm : m₀ ∈ e.metrics)
    {calls : List Call} (hcalls : ∀ c ∈ calls, Ordinary c) {now : Int} (hnow : Instant.InRange now) :
    ∃ cs m τ t rs, τ ≤ t ∧ now ≤ t ∧ t ≤ last ∧ Instant.InRange (e.startOf calls now) ∧
      Life e.matchers e.conditions m₀ (e.startOf calls now) (e.history m₀.plan.id calls) cs τ m rs ∧
      ((e.run calls).shutdown now).watermark = some t ∧
      ((e.run calls).shutdown now).accepted m₀.plan.id = (m.shutdown cs t).state.turnover.accepted ∧
      ((e.run calls).shutdown now).queue.filter (·.metric = m₀.plan.id) =
        rs ++ (m.shutdown cs t).records := by
  obtain ⟨cs, m, τ, t, rs, hτ, hlate, ht, hrange, hlife, hmark, haccepted, hqueue, -⟩ :=
    shutdown_finds h ho hm hcalls hnow
  exact ⟨cs, m, τ, t, rs, hτ, hlate, ht, hrange, hlife, hmark, haccepted, hqueue⟩

end EventMetrics.Engine
