import EventMetrics.Proofs.Engine.Steps
import EventMetrics.Proofs.Metric.Gate

namespace EventMetrics.Engine

open EventMetrics.Metric (Gated)

/-- What an engine can come to, if the interval of a key of a metric, once it is open, is not started
again under another link. -/
inductive Undisturbed (d : Definitions) (o : EngineOptions) (id : String) (k : DimensionKey) :
    Engine → Prop
  | rest {e} : Reachable d o e → (∀ m ∈ e.metrics, m.plan.id = id → m.intervals.opened.get? k = none) →
      Undisturbed d o id k e
  | call {e} (c : Call) : Undisturbed d o id k e → c.InRange →
      (∀ ev, c = .process ev → e.processed < (e.call c).processed → ∀ m ∈ e.metrics, m.plan.id = id →
        ∀ t, m.plan.rule = .timed t → ¬ m.Relinks t ev (e.matchers.judge ev) k) →
      Undisturbed d o id k (e.call c)
  | drain {e} : Undisturbed d o id k e → Undisturbed d o id k e.drain.1

variable {d : Definitions} {o : EngineOptions} {e e' : Engine} {c : Call} {reached : Int} {id : String}
  {k : DimensionKey}

theorem Undisturbed.reachable (h : Undisturbed d o id k e) : Reachable d o e := by
  induction h with
  | rest h _ => exact h
  | call c _ hc _ ih => exact ih.call c hc
  | drain _ ih => exact ih.drain

/-- The intervals of a key of a metric have their gates. -/
def Gates (e : Engine) (id : String) (k : DimensionKey) : Prop :=
  ∀ m ∈ e.metrics, m.plan.id = id → ∀ t, m.plan.rule = .timed t →
    Gated m.plan e.conditions k (fun l => l.isSome = m.plan.isLinked) m

namespace Gates

theorem map (h : e.Gates id k) {f : Metric → Metric} (hmetrics : e'.metrics = e.metrics.map f)
    (hplan : ∀ m ∈ e.metrics, (f m).plan = m.plan)
    (hf : ∀ m ∈ e.metrics, m.plan.id = id → ∀ t, m.plan.rule = .timed t →
      Gated m.plan e.conditions k (fun l => l.isSome = m.plan.isLinked) m →
      Gated m.plan e'.conditions k (fun l => l.isSome = m.plan.isLinked) (f m)) : e'.Gates id k := by
  intro n hn hid t hrule
  rw [hmetrics] at hn
  obtain ⟨m, hm, rfl⟩ := List.mem_map.1 hn
  rw [hplan m hm] at hid hrule ⊢
  exact hf m hm hid t hrule (h m hm hid t hrule)

theorem ensureStarted (h : e.Gates id k) (he : e.Owning) (time : Int) : (e.ensureStarted time).1.Gates id k := by
  cases hw : e.watermark with
  | some w => exact ensureStarted_of_some hw time ▸ h
  | none =>
      rw [ensureStarted_of_none hw]
      refine h.map (each_metrics _ _ _) (fun m hm => ((he m hm).start _ _).plan) fun m _ _ t hrule hg => ?_
      exact hg.start hrule _

theorem moves (h : e.Gates id k) (he : e.Owning) (hcs : e.conditions.WellFormed) (hmoves : Moves e reached c e')
    (hlink : ∀ ev, c = .process ev → reached ≤ ev.time → ∀ m ∈ e.metrics, m.plan.id = id → ∀ t,
      m.plan.rule = .timed t → ¬ m.Relinks t ev (e.matchers.judge ev) k) : e'.Gates id k := by
  cases hmoves with
  | late | behind => exact h
  | process ev hle =>
      refine h.map (apply_metrics e ev) (fun m hm => ?_) fun m hm hid t hrule hg => ?_
      · exact (((he m hm).advance _ ev.time false).forget.absorb _ ev _ _).plan
      · rw [apply_conditions]
        exact hg.visit hrule hcs (hlink ev rfl hle m hm hid t hrule)
  | advanceTo now =>
      exact h.map (each_metrics _ _ _) (fun m hm => ((he m hm).advanceTo _ now).plan)
        fun m _ _ t hrule hg => hg.advanceTo hrule now
  | shutdown now =>
      exact h.map (each_metrics e _ (max now reached)) (fun m hm => ((he m hm).shutdown _ _).plan)
        fun m _ _ t hrule hg => hg.shutdown hrule _

end Gates

theorem relinks_ensureStarted (he : Reachable d o e) {time : Int} {m : Metric}
    (hm : m ∈ (e.ensureStarted time).1.metrics) {t : Timing} (hrule : m.plan.rule = .timed t) {ev : Event}
    {hits : Hits} (h : m.Relinks t ev hits k) : m ∈ e.metrics := by
  cases hw : e.watermark with
  | some w => rwa [ensureStarted_of_some hw] at hm
  | none =>
      rw [ensureStarted_of_none hw, each_metrics, List.mem_map] at hm
      obtain ⟨n, hn, rfl⟩ := hm
      have hplan := Metric.start_plan n e.conditions (e.startTime.getD time)
      have hempty : Gated n.plan e.conditions k (fun _ => False) n := by
        refine ⟨rfl, fun iv hiv => ?_⟩
        rw [((he.fresh hw).2.2 n hn).intervals] at hiv
        cases hiv
      obtain ⟨-, -, -, -, iv, -, hiv, -⟩ := h
      exact ((hempty.start (hplan ▸ hrule) _).interval iv hiv).2.elim

theorem Undisturbed.gates (h : Undisturbed d o id k e) : e.Gates id k := by
  induction h with
  | rest h hnone =>
      intro m hm hid t _
      exact ⟨rfl, fun iv hiv => by rw [hnone m hm hid] at hiv; cases hiv⟩
  | @call e c h _ hlink ih =>
      cases hc : e.closed with
      | true => exact (call_of_closed hc c).symm ▸ ih
      | false =>
          have he := h.reachable
          refine (ih.ensureStarted he.owning c.time).moves (he.owning.ensureStarted c.time)
            (ensureStarted_conditions e c.time ▸ he.wellFormed) (call_moves hc c) ?_
          rintro ev rfl hle m hm hid t hrule hrelinks
          rw [ensureStarted_matchers] at hrelinks
          refine hlink ev rfl ?_ m (relinks_ensureStarted he hm hrule hrelinks) hid t hrule hrelinks
          rw [Engine.call, process_of_le hc hle, apply_processed, ensureStarted_processed]
          exact Nat.lt_succ_self _
  | drain _ ih => exact ih

/-- Time runs for an open interval exactly while the metric is active and its condition, if it has one,
is on: at the interval's own link or, without links, overall. Intervals have links as the metric has. -/
theorem time_runs_iff (h : Undisturbed d o id k e) {m : Metric} (hm : m ∈ e.metrics) (hid : m.plan.id = id)
    {t : Timing} (hrule : m.plan.rule = .timed t) {iv : Interval} (hiv : m.intervals.opened.get? k = some iv) :
    (iv.since.isSome = true ↔ m.active = true ∧
      ∀ g, m.plan.gate = some g → (e.conditions.query g.condition iv.link).isOn = true) ∧
    iv.link.isSome = m.plan.gate.any Gate.isLinked := by
  obtain ⟨hruns, hlink⟩ := (h.gates m hm hid t hrule).interval iv hiv
  refine ⟨?_, hlink⟩
  rw [hruns, Metric.gateOpen, Bool.and_eq_true]
  refine and_congr_right fun _ => ?_
  cases m.plan.gate with
  | none => simp
  | some g => simp

def guests : Definitions where
  matchers := [⟨"lit", .simple 1 []⟩, ⟨"dark", .simple 2 []⟩, ⟨"enter", .simple 3 []⟩, ⟨"leave", .simple 4 []⟩]
  conditions := [⟨"light", .simple { start := "lit", stop := "dark", dimensions := ["room"], initial := .off }⟩]
  metrics := [{ id := "time", measure := .duration "enter" "leave" none false .sum, bucket := some ⟨100⟩,
                condition := some "light", links := [⟨"room", "room"⟩], dimensions := ["user"] }]

def light : Event := { atom := 1, time := 0, fields := Table.empty.insert "room" (.text "hall") }

def enter (room : String) (time : Int) : Event :=
  { atom := 3, time, fields := (Table.empty.insert "room" (.text room)).insert "user" (.text "ann") }

def ann : DimensionKey := ⟨[("user", .text "ann")]⟩

/-- One guest enters the room with the light on. -/
theorem time_runs_iff_guests : ∃ e m t iv, Undisturbed guests { start := some 0 } "time" ann e ∧ m ∈ e.metrics ∧
    m.plan.id = "time" ∧ m.plan.rule = .timed t ∧ m.intervals.opened.get? ann = some iv ∧
    (iv.since.isSome = true ↔ m.active = true ∧
      ∀ g, m.plan.gate = some g → (e.conditions.query g.condition iv.link).isOn = true) := by
  obtain ⟨e, he, hplans, hnone, m, hm, hopen⟩ : ∃ e, compile guests { start := some 0 } = .ok e ∧
      (∀ p ∈ e.metrics.map (·.plan), p.id = "time" ∧ ∃ t, p.rule = .timed t) ∧
      (∀ m ∈ (e.run [.process light]).metrics, m.intervals.opened.get? ann = none) ∧
      ∃ m ∈ (e.run [.process light, .process (enter "hall" 10)]).metrics,
        (m.intervals.opened.get? ann).isSome = true :=
    ⟨_, rfl, by simp, by decide +kernel, by decide +kernel⟩
  obtain ⟨iv, hiv⟩ := Option.isSome_iff_exists.1 hopen
  have hlit : Undisturbed guests { start := some 0 } "time" ann (e.run [.process light]) :=
    .rest (Reachable.run (.compiled he) (by decide)) fun m hm _ => hnone m hm
  have hentered := hlit.call (.process (enter "hall" 10)) (by decide)
    fun ev _ _ m hm _ t _ ⟨_, _, _, _, iv, _, hiv, _⟩ => by rw [hnone m hm] at hiv; cases hiv
  have hplan := List.mem_map_of_mem (f := Metric.plan) hm
  rw [plans_run (compile_owning he)] at hplan
  obtain ⟨hid, t, hrule⟩ := hplans _ hplan
  exact ⟨_, m, t, iv, hentered, hm, hid, hrule, hiv, (time_runs_iff hentered hm hid hrule hiv).1⟩

/-- A guest who enters a lit room before leaving the dark one counts for the dark one, in which time
now runs. -/
theorem running_in_the_dark : ∃ e, compile guests { start := some 0 } = .ok e ∧
    ∃ m ∈ (e.run [.process light, .process (enter "attic" 10), .process (enter "hall" 20)]).metrics,
      ∃ iv ∈ m.intervals.opened.get? ann, iv.since = some 20 ∧ ∃ g ∈ m.plan.gate,
        ((e.run [.process light, .process (enter "attic" 10), .process (enter "hall" 20)]).conditions.query
          g.condition iv.link).isOn = false :=
  ⟨_, rfl, by decide +kernel⟩

end EventMetrics.Engine
