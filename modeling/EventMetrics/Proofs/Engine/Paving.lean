import EventMetrics.Proofs.Engine.Settled
import EventMetrics.Proofs.Metric.Apart
import EventMetrics.Proofs.Metric.Paving

namespace EventMetrics.Engine

open Record (Precedes Paving Covers Tiles)
open Instant (last)

variable {d : Definitions} {o : EngineOptions} {e e' : Engine} {id : String} {c : Call} {calls : List Call}
  {reached : Int}

/-- A call of a run; events come before the end of time. -/
def Timely : Call → Prop
  | .process ev => Instant.InRange ev.time ∧ ev.time < last
  | .advanceTo now | .shutdown now => Instant.InRange now

instance : DecidablePred Timely
  | .process ev => inferInstanceAs (Decidable (Instant.InRange ev.time ∧ ev.time < last))
  | .advanceTo now | .shutdown now => inferInstanceAs (Decidable (Instant.InRange now))

theorem Timely.inRange (h : Timely c) : c.InRange := by
  cases c with
  | process ev => exact h.1
  | advanceTo | shutdown => exact h

theorem Ordinary.timely (h : Ordinary c) : Timely c := by
  cases c with
  | process | advanceTo => exact h
  | shutdown => exact h.elim

theorem Moves.queue_extends (h : Moves e reached c e') : e.queue <+: e'.queue := by
  cases h with
  | late | behind => exact List.prefix_rfl
  | process ev =>
      rw [apply_eq, each_queue]
      refine List.IsPrefix.trans ?_ (List.prefix_append _ _)
      change e.queue <+: (e.each (·.advance e.conditions ev.time false) ev.time).queue
      rw [each_queue]
      exact List.prefix_append _ _
  | advanceTo now => rw [each_queue]; exact List.prefix_append _ _
  | shutdown now =>
      change e.queue <+: (e.each (·.shutdown e.conditions (max now reached)) (max now reached)).queue
      rw [each_queue]
      exact List.prefix_append _ _

theorem ensureStarted_queue (e : Engine) (t : Int) : (e.ensureStarted t).1.queue = e.queue := by
  cases hw : e.watermark with
  | some w => rw [ensureStarted_of_some hw]
  | none =>
      rw [ensureStarted_of_none hw, each_queue]
      simp

theorem queue_prefix_call (e : Engine) (c : Call) : e.queue <+: (e.call c).queue := by
  cases hc : e.closed with
  | true => exact (call_of_closed hc c).symm ▸ List.prefix_rfl
  | false => exact ensureStarted_queue e c.time ▸ (call_moves hc c).queue_extends

theorem Moves.closed (h : Moves e reached c e') (hc : Ordinary c) : e'.closed = e.closed := by
  cases h with
  | process ev => exact apply_closed e ev
  | late | behind | advanceTo => rfl
  | shutdown => exact hc.elim

theorem call_open (hopen : e.closed = false) (hc : Ordinary c) : (e.call c).closed = false :=
  ((call_moves hopen c).closed hc).trans ((ensureStarted_closed e c.time).trans hopen)

theorem run_open (hopen : e.closed = false) (hcalls : ∀ c ∈ calls, Ordinary c) : (e.run calls).closed = false := by
  induction calls generalizing e with
  | nil => exact hopen
  | cons c calls ih =>
      exact ih (call_open hopen (hcalls c List.mem_cons_self)) fun k hk => hcalls k (List.mem_cons_of_mem _ hk)

theorem queue_prefix_shutdown (hopen : e.closed = false) (hcalls : ∀ c ∈ calls, Timely c) :
    ∃ before now, (∀ c ∈ before, Ordinary c ∧ c ∈ calls) ∧ Instant.InRange now ∧
      (before = [] → calls = [] ∨ .shutdown now ∈ calls) ∧
      (e.run calls).queue <+: ((e.run before).shutdown now).queue := by
  induction calls generalizing e with
  | nil => exact ⟨[], 0, by simp, by decide, fun _ => .inl rfl, queue_prefix_call e (.shutdown 0)⟩
  | cons c calls ih =>
      have hrest := fun k hk => hcalls k (List.mem_cons_of_mem _ hk)
      have hordinary : Ordinary c → ∃ before now, (∀ k ∈ before, Ordinary k ∧ k ∈ c :: calls) ∧
          Instant.InRange now ∧ (before = [] → c :: calls = [] ∨ .shutdown now ∈ c :: calls) ∧
          (e.run (c :: calls)).queue <+: ((e.run before).shutdown now).queue := by
        intro hc
        obtain ⟨before, now, hbefore, hnow, -, hpart⟩ := ih (call_open hopen hc) hrest
        refine ⟨c :: before, now, fun k hk => ?_, hnow, by simp, hpart⟩
        rcases List.mem_cons.1 hk with rfl | hk
        · exact ⟨hc, List.mem_cons_self⟩
        · exact (hbefore k hk).imp_right (List.mem_cons_of_mem _)
      cases c with
      | process | advanceTo => exact hordinary (hcalls _ List.mem_cons_self)
      | shutdown now =>
          have hclosed : (e.shutdown now).closed = true := by rw [shutdown_eq hopen]
          refine ⟨[], now, by simp, hcalls _ List.mem_cons_self, fun _ => .inr List.mem_cons_self, ?_⟩
          change ((e.shutdown now).run calls).queue <+: (e.shutdown now).queue
          exact (congrArg Engine.queue (run_of_closed hclosed calls)) ▸ List.prefix_rfl

theorem mem_history {x : Event × Bool} (hx : x ∈ e.history id calls) : .process x.1 ∈ calls := by
  induction calls generalizing e with
  | nil => cases hx
  | cons c calls ih =>
      rcases List.mem_append.1 hx with hx | hx
      · cases c with
        | process ev =>
            simp only [heard] at hx
            split at hx
            · rw [List.mem_singleton.1 hx]
              exact List.mem_cons_self
            · cases hx
        | advanceTo | shutdown => cases hx
      · exact List.mem_cons_of_mem _ (ih hx)

/-- The instants that a run names: the start, if it is fixed, and the times of its calls. -/
def Names (e : Engine) (calls : List Call) (a : Int) : Prop := e.startTime = some a ∨ ∃ c ∈ calls, c.time = a

theorem names_startOf {before : List Call} {now : Int} (hbefore : ∀ c ∈ before, c ∈ calls)
    (hnow : before = [] → .shutdown now ∈ calls) : e.Names calls (e.startOf before now) := by
  rw [startOf]
  cases hs : e.startTime with
  | some s => exact .inl hs
  | none =>
      right
      cases before with
      | nil => exact ⟨_, hnow rfl, rfl⟩
      | cons c before => exact ⟨c, hbefore c List.mem_cons_self, rfl⟩

section Run

variable (h : compile d o = .ok e) (ho : o.InRange) {m : Metric} (hm : m ∈ e.metrics)
  (hb : m.plan.isBucketed = true)
include h ho hm hb

theorem paving_shutdown (hcalls : ∀ c ∈ calls, Ordinary c) {now : Int} (hnow : Instant.InRange now) :
    ∃ stop, ((e.run calls).shutdown now).watermark = some stop ∧ stop ≤ last ∧
      Paving (Metric.Anchors m (e.startOf calls now) (e.history m.plan.id calls)) m.grid.size False
        (e.startOf calls now) stop (((e.run calls).shutdown now).queue.filter (·.metric = m.plan.id)) ∧
      (m.windows = [] → Covers (e.startOf calls now) stop
        (((e.run calls).shutdown now).queue.filter (·.metric = m.plan.id))) := by
  obtain ⟨cs, n, τ, stop, rs, hτ, -, hlast, hrange, hlife, hmark, -, hqueue⟩ := shutdown_life h ho hm hcalls hnow
  obtain ⟨hon, hpaved⟩ := hlife.paved (compile_fresh h m hm) hb hrange
  exact ⟨stop, hmark, hlast, hqueue ▸ hpaved.shutdown hon cs hτ hlast⟩

/-- At any point of a run the reports are a part of a paving. -/
theorem paving_run (hcalls : ∀ c ∈ calls, Timely c) : ∃ s stop,
    Paving (e.Names calls) m.grid.size False s stop ((e.run calls).queue.filter (·.metric = m.plan.id)) := by
  obtain ⟨c, -, he⟩ := compile_eq_ok.1 h
  have hopen : e.closed = false := by rw [he]
  obtain ⟨before, now, hbefore, hnow, hempty, hpart⟩ := queue_prefix_shutdown hopen hcalls
  by_cases hnil : calls = []
  · subst hnil
    refine ⟨0, 0, ?_⟩
    have hqueue : (e.run []).queue = [] := by rw [he]; rfl
    rw [hqueue]
    exact (Paving.nil _ _ 0).weaken
  · obtain ⟨stop, -, -, hpaving, -⟩ := paving_shutdown h ho hm hb (fun c hc => (hbefore c hc).1) hnow
    refine ⟨_, stop, (hpaving.anchor fun a ha => ?_).sublist (hpart.filter _).sublist⟩
    rcases ha with rfl | ⟨-, x, hx, rfl⟩
    · exact names_startOf (fun c hc => (hbefore c hc).2) fun hb => (hempty hb).resolve_left hnil
    · exact .inr ⟨_, (hbefore _ (mem_history hx)).2, rfl⟩

end Run

theorem Moves.gaps {n : Metric} (h : Moves e reached c e') (halone : e.metrics = [n])
    (hn : Metric.Settled reached n) (hb : n.plan.isBucketed = true) (hc : Timely c) :
    ∃ new, e'.queue = e.queue ++ new ∧ (Record.gaps new).Pairwise fun g g' => ¬ g.Joins g' := by
  have hnone : (Record.gaps []).Pairwise fun g g' => ¬ g.Joins g' := .nil
  cases h with
  | late | behind => exact ⟨[], (List.append_nil _).symm, hnone⟩
  | process ev hle =>
      refine ⟨_, ?_, Metric.gaps_visit hn.toOnTime hn.pending hb e.conditions (e.matchers.judge ev) hle hc.2⟩
      rw [Living.apply_alone halone]
  | advanceTo now hle =>
      refine ⟨_, ?_, Metric.gaps_advanceTo hn.toOnTime hn.pending e.conditions hle hc.2⟩
      rw [each_queue, halone, List.flatMap_singleton]
  | shutdown now =>
      have hlast := Int.max_le.2 ⟨hc.2, hn.inRange.2⟩
      refine ⟨_, ?_, Metric.gaps_shutdown hn.toOnTime hn.pending e.conditions (Int.le_max_right now reached) hlast⟩
      change (e.each (·.shutdown e.conditions (max now reached)) (max now reached)).queue = _
      rw [each_queue, halone, List.flatMap_singleton]

theorem gaps_started (he : e.Owning) (hn : e.metricIds.Nodup) (hopen : e.closed = false)
    (hmark : e.watermark = some reached) (hsettled : ∀ m ∈ e.metrics, Metric.Settled reached m) {m : Metric}
    (hm : m ∈ e.metrics) (hb : m.plan.isBucketed = true) (hc : Timely c) {new : List Record}
    (hnew : (e.call c).queue = e.queue ++ new) :
    (Record.gaps (new.filter (·.metric = m.plan.id))).Pairwise fun g g' => ¬ g.Joins g' := by
  have halone := restrict_alone hn hm
  have hstarted : (e.restrict m.plan.id).ensureStarted c.time = (e.restrict m.plan.id, reached) :=
    ensureStarted_of_some (e := e.restrict m.plan.id) hmark c.time
  have hmoves := call_moves (e := e.restrict m.plan.id) hopen c
  rw [hstarted, call_restrict m.plan.id he] at hmoves
  obtain ⟨new', hnew', hgaps⟩ := hmoves.gaps halone (hsettled m hm) hb hc
  have hfilter : ((e.call c).restrict m.plan.id).queue =
      (e.restrict m.plan.id).queue ++ new.filter (·.metric = m.plan.id) := by
    rw [restrict, hnew, List.filter_append]
    rfl
  rwa [← List.append_cancel_left (hfilter.symm.trans hnew')] at hgaps

/-- No two of the stretches of empty buckets that one call reports of a metric could be one. -/
theorem gaps_call (he : Reachable d o e) (ho : o.InRange) (hc : Timely c) {p : MetricPlan}
    (hp : p ∈ e.metrics.map (·.plan)) (hb : p.isBucketed = true) : ∃ new, (e.call c).queue = e.queue ++ new ∧
      (Record.gaps (new.filter (·.metric = p.id))).Pairwise fun g g' => ¬ g.Joins g' := by
  obtain ⟨new, hnew⟩ := queue_prefix_call e c
  refine ⟨new, hnew.symm, ?_⟩
  cases hopen : e.closed with
  | true =>
      rw [call_of_closed hopen] at hnew
      have hnone : new = [] := by simpa using hnew
      rw [hnone]
      exact .nil
  | false =>
      have hplans := (keeps_start e c.time).plans he.owning
      rw [← hplans] at hp
      obtain ⟨m, hm, rfl⟩ := List.mem_map.1 hp
      have hsettled := settled_ensureStarted he ho hc.inRange fun τ hw => he.settled ho hopen hw
      have hids : (e.ensureStarted c.time).1.metricIds = e.metricIds := by
        simpa [metricIds, Function.comp_def] using congrArg (List.map MetricPlan.id) hplans
      rw [← ensureStarted_queue e c.time, ← call_started hopen c] at hnew
      exact gaps_started (he.owning.ensureStarted c.time) (hids ▸ he.nodup)
        ((ensureStarted_closed e c.time).trans hopen) (ensureStarted_watermark e c.time) hsettled hm hb hc hnew.symm

end EventMetrics.Engine
