import EventMetrics.Proofs.Engine.Loops
import EventMetrics.Proofs.Engine.Paving
import EventMetrics.Proofs.Engine.Works
import EventMetrics.Proofs.Metric.Logged

namespace EventMetrics

open Instant (last)
open Record (gaps reports)

/-- A metric with buckets that always records: at the last instant one bucket follows another for ever. -/
def Metric.Endless (m : Metric) : Prop := m.plan.isBucketed = true ∧ m.windows = []

theorem Metric.kept_free (p : Prop) : Kept fun m => m.windows = [] ↔ p where
  start cs time h := by rwa [start_windows]
  absorb cs cs' ev hits u h := by rwa [absorb_windows, Activations.onEvent, List.map_eq_nil_iff, advance_windows]
  advanceTo cs now h := by rwa [advanceTo_windows]
  shutdown cs now h := by rwa [shutdown_windows]

theorem Metric.passes_of_not_endless {m : Metric} {τ : Int} (hbounded : m.windows.Bounded) (hle : τ ≤ last)
    (hends : τ = last → ¬ m.Endless) : Passes τ m :=
  .of_bounded hbounded hle fun hlast hb hw => hends hlast ⟨hb, hw⟩

namespace Engine

def call? (e : Engine) : Call → Option Engine
  | .process ev => (e.process? ev).map (·.1)
  | .advanceTo now => e.advanceTo? now
  | .shutdown now => e.shutdown? now

def run? (e : Engine) (calls : List Call) : Option Engine := calls.foldlM call? e

/-- An event at the last instant never ends while a metric with buckets always records. -/
def Hangs (e : Engine) : Call → Prop
  | .process ev => e.closed = false ∧ ev.time = last ∧ ∃ m ∈ e.metrics, m.Endless
  | .advanceTo _ | .shutdown _ => False

def Ends : Engine → List Call → Prop
  | _, [] => True
  | e, c :: calls => ¬ e.Hangs c ∧ Ends (e.call c) calls

variable {d : Definitions} {o : EngineOptions} {e e' : Engine} {c : Call} {calls : List Call}

theorem ends_append (e : Engine) (calls more : List Call) :
    e.Ends (calls ++ more) ↔ e.Ends calls ∧ (e.run calls).Ends more := by
  induction calls generalizing e with
  | nil => simp [Ends, run]
  | cons c calls ih =>
      rw [List.cons_append, Ends, Ends, ih, and_assoc]
      rfl

theorem ends_of_timely (h : ∀ c ∈ calls, Timely c) : e.Ends calls := by
  induction calls generalizing e with
  | nil => trivial
  | cons c calls ih =>
      refine ⟨fun hhangs => ?_, ih fun k hk => h k (List.mem_cons_of_mem _ hk)⟩
      cases c with
      | process ev => exact Int.ne_of_lt (h _ List.mem_cons_self).2 hhangs.2.1
      | advanceTo | shutdown => exact hhangs

theorem call?_eq_some (he : Reachable d o e) (ho : o.InRange) (hc : c.InRange) :
    e.call? c = some e' ↔ ¬ e.Hangs c ∧ e.call c = e' := by
  cases c with
  | process ev =>
      by_cases hhangs : e.Hangs (.process ev)
      · obtain ⟨hopen, hlast, m, hm, hb, hw⟩ := id hhangs
        simp [call?, process?_eq_none he ho hopen hlast hm hb hw, hhangs]
      · have hsome := process?_eq_some he ho hc fun hopen hlast m hm hb hw => hhangs ⟨hopen, hlast, m, hm, hb, hw⟩
        simp [call?, hsome, hhangs, call]
  | advanceTo now =>
      have hsome : e.advanceTo? now = some (e.advanceTo now) := advanceTo?_eq he ho hc
      simp [call?, hsome, call, Hangs]
  | shutdown now =>
      have hsome : e.shutdown? now = some (e.shutdown now) := shutdown?_eq he ho hc
      simp [call?, hsome, call, Hangs]

theorem run?_eq_some (he : Reachable d o e) (ho : o.InRange) (hcalls : ∀ c ∈ calls, c.InRange) :
    e.run? calls = some e' ↔ e.Ends calls ∧ e.run calls = e' := by
  induction calls generalizing e with
  | nil => simp [run?, run, Ends]
  | cons c calls ih =>
      have hc := hcalls c List.mem_cons_self
      have hrest := ih (he.call c hc) fun k hk => hcalls k (List.mem_cons_of_mem _ hk)
      have hrun : e.run? (c :: calls) = (e.call? c).bind fun e => e.run? calls := rfl
      rw [hrun, Option.bind_eq_some_iff, Ends, and_assoc]
      constructor
      · rintro ⟨e₁, hcall, hlast⟩
        obtain ⟨hends, rfl⟩ := (call?_eq_some he ho hc).1 hcall
        exact ⟨hends, hrest.1 hlast⟩
      · rintro ⟨hends, hlast⟩
        exact ⟨_, (call?_eq_some he ho hc).2 ⟨hends, rfl⟩, hrest.2 hlast⟩

theorem Ends.restrict (h : e.Ends calls) (howning : e.Owning) (id : String) : (e.restrict id).Ends calls := by
  induction calls generalizing e with
  | nil => trivial
  | cons c calls ih =>
      refine ⟨fun hhangs => h.1 ?_, call_restrict id howning c ▸ ih h.2 (howning.call c)⟩
      cases c with
      | process ev =>
          obtain ⟨hopen, hlast, m, hm, hendless⟩ := hhangs
          exact ⟨hopen, hlast, m, (List.mem_filter.1 hm).1, hendless⟩
      | advanceTo | shutdown => exact hhangs

theorem endless_call (he : e.Owning) (c : Call) :
    (∃ m ∈ (e.call c).metrics, m.Endless) ↔ ∃ m ∈ e.metrics, m.Endless := by
  obtain ⟨f, hf, hkept⟩ := keeps_call e c
  have hsame : ∀ m ∈ e.metrics, (f m).Endless ↔ m.Endless := fun m hm => by
    rw [Metric.Endless, Metric.Endless, (hkept _ (kept_owned m.plan) m (he m hm)).plan,
      hkept _ (Metric.kept_free (m.windows = [])) m Iff.rfl]
  rw [hf]
  constructor
  · rintro ⟨_, hn, hendless⟩
    obtain ⟨m, hm, rfl⟩ := List.mem_map.1 hn
    exact ⟨m, hm, (hsame m hm).1 hendless⟩
  · rintro ⟨m, hm, hendless⟩
    exact ⟨f m, List.mem_map_of_mem hm, (hsame m hm).2 hendless⟩

/-- An event at the last instant ends where no metric is endless. -/
theorem ends_of_calm (he : e.Owning)
    (h : ∀ x, .process x ∈ calls → x.time = last → ∀ m ∈ e.metrics, ¬ m.Endless) : e.Ends calls := by
  induction calls generalizing e with
  | nil => trivial
  | cons c calls ih =>
      refine ⟨fun hhangs => ?_, ih (he.call c) fun x hx hlast m hm hendless => ?_⟩
      · cases c with
        | process x =>
            obtain ⟨-, hlast, m, hm, hendless⟩ := hhangs
            exact h x List.mem_cons_self hlast m hm hendless
        | advanceTo | shutdown => exact hhangs
      · obtain ⟨n, hn, hendless⟩ := (endless_call he c).1 ⟨m, hm, hendless⟩
        exact h x (List.mem_cons_of_mem _ hx) hlast n hn hendless

theorem closed_call (c : Call) (hc : ∀ now, c ≠ .shutdown now) : (e.call c).closed = e.closed := by
  cases hopen : e.closed with
  | true => rw [call_of_closed hopen, hopen]
  | false => exact ((call_moves hopen c).closed_eq hc).trans ((ensureStarted_closed e c.time).trans hopen)

theorem closed_shutdown (e : Engine) (now : Int) : (e.shutdown now).closed = true := by
  cases hopen : e.closed with
  | true => rwa [show e.shutdown now = e from call_of_closed hopen (.shutdown now)]
  | false => rw [shutdown_eq hopen]

theorem Ticked.ends_iff {ticked : List Call} (h : Ticked calls ticked) (he : e.Owning) (he' : e'.Owning)
    (hclosed : e.closed = e'.closed) (hendless : (∃ m ∈ e.metrics, m.Endless) ↔ ∃ m ∈ e'.metrics, m.Endless) :
    e.Ends calls ↔ e'.Ends ticked := by
  induction h generalizing e e' with
  | nil => exact Iff.rfl
  | process ev _ ih =>
      rw [Ends, Ends, Hangs, Hangs, hclosed, hendless]
      refine and_congr_right fun _ => ih (he.call _) (he'.call _) ?_ ?_
      · rw [closed_call _ (by simp), closed_call _ (by simp), hclosed]
      · rw [endless_call he, endless_call he', hendless]
  | shutdown now _ ih =>
      refine and_congr_right fun _ => ih (he.call _) (he'.call _) ?_ ?_
      · exact (closed_shutdown e now).trans (closed_shutdown e' now).symm
      · rw [endless_call he, endless_call he', hendless]
  | tick now _ _ ih =>
      rw [ih he (he'.call (.advanceTo now)) (by rw [closed_call _ (by simp), hclosed])
        (by rw [endless_call he', hendless])]
      exact (and_iff_right id).symm

open EventMetrics.Metric (Settled Steady Leaves Logged Settles Fresh Endless)

variable {ms : Matchers} {P : List Work → Int → Metric → List Record → Prop}
  {Q : List Work → Metric → List Record → Prop} {ws : List Work} {m m₀ : Metric} {τ : Int}

def events (e : Engine) (id : String) (calls : List Call) : List Event := (e.history id calls).map (·.1)

/-- An engine whose one metric has come to an instant. -/
structure Holding (ms : Matchers) (P : List Work → Int → Metric → List Record → Prop) (ws : List Work) (e : Engine)
    (m : Metric) (τ : Int) : Prop where
  matchers : e.matchers = ms
  metrics : e.metrics = [m]
  watermark : e.watermark = some τ
  closed : e.closed = false
  settled : Settled τ m
  bounded : m.windows.Bounded
  holds : P ws τ m e.queue

namespace Holding

variable (h : Holding ms P ws e m τ)
include h

theorem passes {ev : Event} (hlast : ev.time ≤ last) (hends : ¬ e.Hangs (.process ev)) (hits : Hits) :
    Metric.Passes ev.time ((m.advance e.conditions ev.time false).state.watch ev.time hits) := by
  have hwindows := Metric.advance_windows m e.conditions ev.time false
  have hbounded : ((m.advance e.conditions ev.time false).state.watch ev.time hits).windows.Bounded :=
    (hwindows ▸ h.bounded).onEvent ev.time hits
  exact Metric.passes_of_not_endless hbounded hlast fun htime hendless => hends ⟨h.closed, htime, m,
    by simp [h.metrics], Metric.advance_plan m e.conditions ev.time false ▸ hendless.1,
    hwindows ▸ List.map_eq_nil_iff.1 hendless.2⟩

variable (hP : Logged ms P) (hQ : Settles P Q)
include hP hQ

theorem call (hc : c.InRange) (hends : ¬ e.Hangs c) :
    (∃ m' τ', Holding ms P (ws ++ e.callWorks m.plan.id c) (e.call c) m' τ') ∨
    (e.call c).closed = true ∧ ∃ m', (e.call c).metrics = [m'] ∧
      Q (ws ++ e.callWorks m.plan.id c) m' (e.call c).queue := by
  have hon := h.settled.toOnTime
  have hmoves := call_moves h.closed c
  rw [callWorks_of_some h.closed h.watermark]
  rw [ensureStarted_of_some h.watermark] at hmoves
  generalize e.call c = e' at hmoves
  cases hmoves with
  | late ev hlt =>
      rw [askedWorks, if_pos hlt, List.append_nil]
      exact .inl ⟨m, τ, h.matchers, h.metrics, h.watermark, h.closed, h.settled, h.bounded, h.holds⟩
  | process ev hle =>
      left
      have hvisit := hP.visit h.holds hon e.conditions hle hc.2 (h.passes hc.2 hends _)
      rw [askedWorks, if_neg (Int.not_lt.2 hle), eachWorks_alone h.metrics, Living.apply_alone h.metrics, h.matchers]
      exact ⟨_, _, rfl, rfl, rfl, h.closed, h.settled.visit e.conditions ev _ hle hc.2,
        kept_bounded.absorb _ _ _ _ _ h.bounded, hvisit⟩
  | behind now hlt =>
      rw [askedWorks, if_pos hlt, List.append_nil]
      exact .inl ⟨m, τ, h⟩
  | advanceTo now hle =>
      rw [askedWorks, if_neg (Int.not_lt.2 hle), eachWorks_alone h.metrics]
      refine .inl ⟨(m.advanceTo e.conditions now).state, now, h.matchers, by simp [h.metrics], rfl, h.closed,
        h.settled.advanceTo e.conditions hle hc.2, kept_bounded.advanceTo _ now h.bounded, ?_⟩
      rw [each_queue, h.metrics, List.flatMap_singleton]
      exact hP.advanceTo h.holds hon e.conditions hle hc.2
  | shutdown now =>
      have hlast := Int.max_le.2 ⟨hc.2, hon.inRange.2⟩
      obtain ⟨ht, hadvanced⟩ := hP.advance h.holds hon e.conditions (Int.le_max_right now τ) hlast
      have hdone := hQ.close e.conditions hadvanced ht.toPlaced
      refine .inr ⟨rfl, (m.shutdown e.conditions (max now τ)).state, by simp [h.metrics], ?_⟩
      rw [askedWorks, eachWorks_alone h.metrics, Metric.shutdownWorks]
      change Q _ _ (e.each (·.shutdown e.conditions (max now τ)) (max now τ)).queue
      rw [each_queue, h.metrics, List.flatMap_singleton]
      simpa only [Metric.shutdown, Emitting.andThen_state, Emitting.andThen_records, List.append_assoc] using hdone

theorem runs (howning : e.Owning) (hcalls : ∀ c ∈ calls, c.InRange) (hends : e.Ends calls) :
    (∃ m' τ', Holding ms P (ws ++ e.works m.plan.id calls) (e.run calls) m' τ') ∨
    (e.run calls).closed = true ∧ ∃ m', (e.run calls).metrics = [m'] ∧
      Q (ws ++ e.works m.plan.id calls) m' (e.run calls).queue := by
  induction calls generalizing e m τ ws with
  | nil => exact .inl ⟨m, τ, by simpa [works, Engine.run] using h⟩
  | cons c calls ih =>
      rw [works, ← List.append_assoc]
      change (∃ m' τ', Holding ms P _ ((e.call c).run calls) m' τ') ∨ ((e.call c).run calls).closed = true ∧
        ∃ m', ((e.call c).run calls).metrics = [m'] ∧ Q _ m' ((e.call c).run calls).queue
      rcases h.call hP hQ (hcalls c List.mem_cons_self) hends.1 with ⟨m', τ', h'⟩ | ⟨hclosed, hdone⟩
      · have hplan : m'.plan = m.plan := by
          simpa [h.metrics, h'.metrics] using (keeps_call e c).plans howning
        rw [← hplan] at h' ⊢
        exact ih h' (howning.call c) (fun k hk => hcalls k (List.mem_cons_of_mem _ hk)) hends.2
      · rw [run_of_closed hclosed, works_of_closed hclosed, List.append_nil]
        exact .inr ⟨hclosed, hdone⟩

theorem run (howning : e.Owning) (hcalls : ∀ c ∈ calls, c.InRange) (hends : e.Ends calls) :
    ∃ m', (e.run calls).metrics = [m'] ∧ Q (ws ++ e.works m.plan.id calls) m' (e.run calls).queue := by
  rcases h.runs hP hQ howning hcalls hends with ⟨m', τ', h'⟩ | ⟨-, hdone⟩
  · exact ⟨m', h'.metrics, hQ.rest h'.holds h'.settled.pending⟩
  · exact hdone

end Holding

theorem holding_started (hmetrics : e.metrics = [m₀]) (hmark : e.watermark = none) (hclosed : e.closed = false)
    (hqueue : e.queue = []) (hm : Fresh m₀) {time : Int} (hrange : Instant.InRange (e.startTime.getD time))
    (hstart : P (m₀.startWorks e.conditions (e.startTime.getD time)) (e.startTime.getD time)
      (m₀.start e.conditions (e.startTime.getD time)) []) :
    Holding e.matchers P (e.startWorks m₀.plan.id time) (e.ensureStarted time).1
      (m₀.start e.conditions (e.startTime.getD time)) (e.startTime.getD time) := by
  have hworks : e.startWorks m₀.plan.id time = m₀.startWorks e.conditions (e.startTime.getD time) := by
    simp only [Engine.startWorks, hmark, eachWorks_alone hmetrics]
  rw [ensureStarted_of_none hmark, hworks]
  refine ⟨rfl, by simp [hmetrics], rfl, hclosed, .start hm hrange e.conditions, ?_, ?_⟩
  · exact kept_bounded.start _ _ fun a ha x hx => by simp [hm.windows a ha] at hx
  · rwa [each_queue, hqueue, hmetrics, List.flatMap_singleton]

theorem ends_started (hclosed : e.closed = false) (h : e.Ends (c :: calls)) :
    (e.ensureStarted c.time).1.Ends (c :: calls) := by
  refine ⟨fun hhangs => h.1 ?_, call_started hclosed c ▸ h.2⟩
  cases c with
  | process ev =>
      obtain ⟨-, hlast, n, hn, hendless⟩ := hhangs
      obtain ⟨f, hf, hkept⟩ := ensureStarted_metrics e ev.time
      rw [Call.time, hf] at hn
      obtain ⟨m, hm, rfl⟩ := List.mem_map.1 hn
      exact ⟨hclosed, hlast, m, hm, (hkept m).1 ▸ hendless.1, (hkept m).2 ▸ hendless.2⟩
  | advanceTo | shutdown => exact hhangs

theorem holding_compiled (h : compile d o = .ok e) (ho : o.InRange) (hm : m ∈ e.metrics)
    (hcalls : ∀ k ∈ c :: calls, k.InRange) (hends : e.Ends (c :: calls))
    (hstart : Instant.InRange (e.startOf (c :: calls) 0) → P (m.startWorks e.conditions (e.startOf (c :: calls) 0))
      (e.startOf (c :: calls) 0) (m.start e.conditions (e.startOf (c :: calls) 0)) []) :
    ∃ e₁ ws m₁ τ, Holding e.matchers P ws e₁ m₁ τ ∧ m₁.plan = m.plan ∧ e₁.Owning ∧ e₁.Ends (c :: calls) ∧
      e₁.processed = e.processed ∧ (∀ more, e₁.run (c :: more) = (e.run (c :: more)).restrict m.plan.id) ∧
      e.works m.plan.id (c :: calls) = ws ++ e₁.works m.plan.id (c :: calls) := by
  have howning := compile_owning h
  have halone := restrict_alone (Reachable.compiled h).nodup hm
  obtain ⟨_, -, he⟩ := compile_eq_ok.1 h
  have hopen : (e.restrict m.plan.id).closed = false := by rw [he]; rfl
  have hrange : Instant.InRange (e.startOf (c :: calls) 0) :=
    startOf_inRange (by rw [he]; exact ho) hcalls (by decide)
  refine ⟨((e.restrict m.plan.id).ensureStarted c.time).1, _, _, _,
    holding_started halone (by rw [he]; rfl) hopen (by rw [he]; rfl) (compile_fresh h m hm) hrange (hstart hrange),
    Metric.start_plan m _ _, (howning.restrict m.plan.id).ensureStarted c.time,
    ends_started hopen (hends.restrict howning m.plan.id), ensureStarted_processed _ _, fun more => ?_, ?_⟩
  · rw [← run_restrict howning, run, List.foldl_cons, call_started hopen]
    rfl
  · rw [← works_restrict howning, works_started hopen]

/-- What holds of a metric from its start on, and every part of its work keeps, holds of it after any run
that ends. -/
theorem logged_run (hP : Logged e.matchers P) (hQ : Settles P Q) (h : compile d o = .ok e) (ho : o.InRange)
    (hm : m ∈ e.metrics) (hcalls : ∀ c ∈ calls, c.InRange) (hends : e.Ends calls) (hfresh : Q [] m [])
    (hstart : Instant.InRange (e.startOf calls 0) → P (m.startWorks e.conditions (e.startOf calls 0))
      (e.startOf calls 0) (m.start e.conditions (e.startOf calls 0)) []) :
    ∃ m', (e.run calls).metrics.filter (·.plan.id = m.plan.id) = [m'] ∧
      Q (e.works m.plan.id calls) m' ((e.run calls).queue.filter (·.metric = m.plan.id)) := by
  suffices hrun : ∃ m', ((e.run calls).restrict m.plan.id).metrics = [m'] ∧
      Q (e.works m.plan.id calls) m' ((e.run calls).restrict m.plan.id).queue from hrun
  cases calls with
  | nil =>
      obtain ⟨_, -, he⟩ := compile_eq_ok.1 h
      exact ⟨m, restrict_alone (Reachable.compiled h).nodup hm, by simpa [run, restrict, works, he] using hfresh⟩
  | cons c calls =>
      obtain ⟨e₁, ws, m₁, τ, hholding, hplan, howning, hends₁, -, hrun, hworks⟩ :=
        holding_compiled h ho hm hcalls hends hstart
      have hdone := hholding.run hP hQ howning hcalls hends₁
      rwa [hrun, hplan, ← hworks] at hdone

theorem events_works_of_compile (h : compile d o = .ok e) (hm : m ∈ e.metrics) (calls : List Call) :
    Work.events (e.works m.plan.id calls) = e.events m.plan.id calls := by
  have howning := compile_owning h
  have halone := restrict_alone (Reachable.compiled h).nodup hm
  rw [← works_restrict howning, events, ← history_restrict howning]
  exact events_works halone (howning.restrict m.plan.id) m.plan.id calls

/-- What is kept may tell of the events that came. -/
theorem steady_run {P : List Event → Int → Metric → List Record → Prop} {Q : List Event → Metric → List Record → Prop}
    (hP : Steady e.matchers P) (hQ : Leaves P Q) (h : compile d o = .ok e) (ho : o.InRange)
    (hm : m ∈ e.metrics) (hcalls : ∀ c ∈ calls, c.InRange) (hends : e.Ends calls) (hfresh : Q [] m [])
    (hstart : Instant.InRange (e.startOf calls 0) →
      P [] (e.startOf calls 0) (m.start e.conditions (e.startOf calls 0)) []) :
    ∃ m', (e.run calls).metrics.filter (·.plan.id = m.plan.id) = [m'] ∧
      Q (e.events m.plan.id calls) m' ((e.run calls).queue.filter (·.metric = m.plan.id)) := by
  rw [← events_works_of_compile h hm]
  refine logged_run hP.logged hQ.settles h ho hm hcalls hends hfresh fun hs => ?_
  rw [m.events_startWorks]
  exact hstart hs

end Engine

end EventMetrics
