import EventMetrics.Proofs.Engine.History

namespace EventMetrics.Engine

variable {d : Definitions} {o : EngineOptions} {e e' : Engine} {c : Call} {reached : Int}

/-- What a call does to an engine that has started and is not closed. -/
inductive Moves (e : Engine) (reached : Int) : Call → Engine → Prop
  | late (ev : Event) : ev.time < reached →
      Moves e reached (.process ev) { e with drops := e.drops.record .outOfOrder }
  | process (ev : Event) : reached ≤ ev.time → Moves e reached (.process ev) (e.apply ev).1
  | behind (now : Int) : now < reached → Moves e reached (.advanceTo now) e
  | advanceTo (now : Int) : reached ≤ now →
      Moves e reached (.advanceTo now) (e.each (·.advanceTo e.conditions now) now)
  | shutdown (now : Int) : Moves e reached (.shutdown now)
      { e.each (·.shutdown e.conditions (max now reached)) (max now reached) with closed := true }

theorem call_moves (hc : e.closed = false) (c : Call) :
    Moves (e.ensureStarted c.time).1 (e.ensureStarted c.time).2 c (e.call c) := by
  cases c with
  | process ev =>
      rw [call, process_eq hc]
      split
      next h => exact .late ev h
      next h => exact .process ev (Int.not_lt.1 h)
  | advanceTo now =>
      rw [call, advanceTo_eq hc]
      split
      next h => exact .behind now h
      next h => exact .advanceTo now (Int.not_lt.1 h)
  | shutdown now =>
      rw [call, shutdown_eq hc]
      exact .shutdown now

theorem Keeps.plans (h : Keeps e e') (he : e.Owning) : e'.metrics.map (·.plan) = e.metrics.map (·.plan) := by
  obtain ⟨f, hf, hkept⟩ := h
  rw [hf, List.map_map]
  exact List.map_congr_left fun m hm => (hkept _ (kept_owned m.plan) m (he m hm)).plan

theorem plans_run (h : e.Owning) (calls : List Call) :
    (e.run calls).metrics.map (·.plan) = e.metrics.map (·.plan) := by
  induction calls generalizing e with
  | nil => rfl
  | cons c calls ih => exact (ih (h.call c)).trans ((keeps_call e c).plans h)

theorem process_of_le (hc : e.closed = false) {ev : Event} (hle : (e.ensureStarted ev.time).2 ≤ ev.time) :
    e.process ev = (e.ensureStarted ev.time).1.apply ev := by
  rw [process_eq hc, if_neg (Int.not_lt.2 hle)]

theorem apply_metrics (e : Engine) (ev : Event) : (e.apply ev).1.metrics =
    e.metrics.map fun m => (m.visit e.conditions ev (e.matchers.judge ev)).1.state := by
  simp [apply_eq, expecting, learn, condition, hear, Metric.visit, each, settle]

theorem apply_conditions (e : Engine) (ev : Event) :
    (e.apply ev).1.conditions = (e.conditions.onEvent ev (e.matchers.judge ev)).1 := by
  simp [apply_eq, expecting, learn, condition, each, settle]

theorem apply_watermark (e : Engine) (ev : Event) : (e.apply ev).1.watermark = some ev.time := by
  simp [apply_eq, each, settle]

theorem apply_closed (e : Engine) (ev : Event) : (e.apply ev).1.closed = e.closed := by
  simp [apply_eq, expecting, learn, each, settle]

theorem apply_processed (e : Engine) (ev : Event) : (e.apply ev).1.processed = e.processed + 1 := by
  simp [apply_eq, expecting, learn, each, settle]

theorem ensureStarted_metrics (e : Engine) (time : Int) : ∃ f : Metric → Metric,
    (e.ensureStarted time).1.metrics = e.metrics.map f ∧ ∀ m, (f m).plan = m.plan ∧ (f m).windows = m.windows := by
  cases hw : e.watermark with
  | some w => exact ⟨id, by simp [ensureStarted_of_some hw], fun _ => ⟨rfl, rfl⟩⟩
  | none =>
      rw [ensureStarted_of_none hw]
      exact ⟨_, each_metrics _ _ _, fun m => ⟨Metric.start_plan m _ _, Metric.start_windows m _ _⟩⟩

theorem Moves.wellFormed (h : Moves e reached c e') (hcs : e.conditions.WellFormed) :
    e'.conditions.WellFormed := by
  cases h with
  | process ev => exact apply_conditions e ev ▸ hcs.onEvent ev _
  | late | behind | advanceTo | shutdown => exact hcs

theorem Moves.within (h : Moves e reached c e') (hcs : e.conditions.WellFormed) {n : Nat}
    (hn : e.conditions.Within n) : e'.conditions.Within (n + 1) := by
  cases h with
  | process ev => exact apply_conditions e ev ▸ hcs.within hn ev _
  | late | behind | advanceTo | shutdown => exact fun c hc => (hn c hc).succ

theorem Moves.closed_eq (h : Moves e reached c e') (hc : ∀ now, c ≠ .shutdown now) : e'.closed = e.closed := by
  cases h with
  | process ev _ => exact apply_closed e ev
  | shutdown now => exact absurd rfl (hc now)
  | late | behind | advanceTo => rfl

theorem Moves.isSome_watermark (h : Moves e reached c e') (hw : e.watermark.isSome = true) :
    e'.watermark.isSome = true := by
  cases h with
  | process ev => exact apply_watermark e ev ▸ rfl
  | advanceTo | shutdown => rfl
  | late | behind => exact hw

theorem isSome_watermark_call (hc : e.closed = false) (c : Call) : (e.call c).watermark.isSome = true :=
  (call_moves hc c).isSome_watermark (ensureStarted_watermark e c.time ▸ rfl)

namespace Reachable

theorem run (h : Reachable d o e) {calls : List Call} (hcalls : ∀ c ∈ calls, c.InRange) :
    Reachable d o (e.run calls) := by
  induction calls generalizing e with
  | nil => exact h
  | cons c calls ih =>
      exact ih (h.call c (hcalls c List.mem_cons_self)) fun c' hc' => hcalls c' (List.mem_cons_of_mem _ hc')

theorem fresh (h : Reachable d o e) (hw : e.watermark = none) :
    e.closed = false ∧ e.startTime = o.start ∧ ∀ m ∈ e.metrics, Metric.Fresh m := by
  induction h with
  | compiled h =>
      obtain ⟨c, -, he⟩ := compile_eq_ok.1 h
      exact ⟨by rw [he], by rw [he], compile_fresh h⟩
  | @call e c _ _ ih =>
      cases hc : e.closed with
      | true =>
          rw [call_of_closed hc] at hw ⊢
          exact ih hw
      | false => simp [Option.isSome_iff_ne_none.1 (isSome_watermark_call hc c)] at hw
  | drain _ ih => exact ih hw

theorem forall_metrics {P : Metric → Prop} (hP : Metric.Kept P) (hfresh : ∀ m, Metric.Fresh m → P m)
    (h : Reachable d o e) : ∀ m ∈ e.metrics, P m := by
  induction h with
  | compiled h => exact fun m hm => hfresh m (compile_fresh h m hm)
  | call c _ _ ih => exact forall_metrics_call hP ih c
  | drain _ ih => exact ih

theorem wellFormed (h : Reachable d o e) : e.conditions.WellFormed := by
  induction h with
  | compiled h => exact compile_wellFormed h
  | @call e c _ _ ih =>
      cases hc : e.closed with
      | true => exact (call_of_closed hc c).symm ▸ ih
      | false => exact (call_moves hc c).wellFormed (ensureStarted_conditions e c.time ▸ ih)
  | drain _ ih => exact ih

end Reachable

end EventMetrics.Engine
