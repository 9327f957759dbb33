import EventMetrics.Proofs.Metric.Logged

namespace EventMetrics

def Work.opensWindow (w : Work) : Bool :=
  match w.deed with
  | .activate => true
  | .roll slot => w.metric.active && w.metric.windows.isActive slot.stop
  | _ => false

/-- The part of the work that opened the window in which the metric is. -/
def Work.opening? (ws : List Work) : Option Work := (ws.filter opensWindow).getLast?

theorem Work.opening?_concat (ws : List Work) (w : Work) :
    opening? (ws ++ [w]) = if w.opensWindow then some w else opening? ws := by
  cases hw : w.opensWindow <;> simp [opening?, hw]

namespace MetricPlan

/-- The condition is unknown to a metric with buckets that asks it without links. -/
def Unsure (p : MetricPlan) (cs : Conditions) : Prop :=
  p.isBucketed = true ∧ ∃ g, p.gate = some g ∧ g.isLinked = false ∧ cs.query g.condition none = .unknown

def WindowUnknown (p : MetricPlan) (ws : List Work) : Prop :=
  ∃ w, Work.opening? ws = some w ∧ p.Unsure w.conditions

theorem windowUnknown_of_opens {p : MetricPlan} {ws : List Work} {w : Work} (h : w.opensWindow = true) :
    p.WindowUnknown (ws ++ [w]) ↔ p.Unsure w.conditions := by
  simp [WindowUnknown, Work.opening?_concat, h]

theorem windowUnknown_of_not_opens {p : MetricPlan} {ws : List Work} {w : Work} (h : w.opensWindow = false) :
    p.WindowUnknown (ws ++ [w]) ↔ p.WindowUnknown ws := by
  simp [WindowUnknown, Work.opening?_concat, h]

end MetricPlan

namespace Metric

variable (m : Metric) (cs : Conditions) {p : MetricPlan} {ws : List Work} {τ : Int}

theorem openWindow_unknown : (m.openWindow cs).windowUnknown = true ↔ m.plan.Unsure cs := by
  cases hg : m.plan.gate with
  | none => simp [openWindow, MetricPlan.Unsure, hg]
  | some g => simp [openWindow, MetricPlan.Unsure, hg, and_assoc]

theorem onIntervals_windowUnknown (f : Timing → Intervals → Intervals) :
    (m.onIntervals f).windowUnknown = m.windowUnknown := by
  rw [onIntervals]
  split <;> rfl

theorem activate_unknown (time : Int) : (m.activate cs time).windowUnknown = true ↔ m.plan.Unsure cs := by
  rw [activate, onIntervals_windowUnknown, openWindow_unknown]

theorem deactivate_windowUnknown (time : Int) : (m.deactivate time).windowUnknown = m.windowUnknown :=
  onIntervals_windowUnknown _ _

theorem roll_unknown (slot : Slot) : (m.roll cs slot).state.windowUnknown = true ↔
    if m.active && m.windows.isActive slot.stop then m.plan.Unsure cs else m.windowUnknown = true := by
  have hbody :
      (m.roll cs slot).state.windowUnknown = ((m.accrue slot.stop).clearBucket.proceed cs slot).windowUnknown :=
    (congrArg Metric.windowUnknown (body_roll m cs slot) :)
  rw [hbody, proceed]
  simp only [clearBucket, accrue, onIntervals_active, onIntervals_windows]
  cases ha : m.active <;> cases hw : m.windows.isActive slot.stop <;>
    simp [openWindow_unknown, deactivate_windowUnknown, onIntervals_windowUnknown]

/-- The flag of a metric tells what its work tells of its window, which opened while the open bucket was open. -/
structure Flagged (p : MetricPlan) (ws : List Work) (τ : Int) (m : Metric) : Prop where
  plan : m.plan = p
  unknown : m.windowUnknown = true ↔ p.WindowUnknown ws
  opening : m.active = true →
    ∃ w, Work.opening? ws = some w ∧ w.time ≤ τ ∧ ∀ slot, m.grid.current = some slot → slot.start ≤ w.time

variable {m}

theorem Flagged.congr {n : Metric} {w : Work} (h : Flagged p ws τ m) (hw : w.opensWindow = false)
    (hplan : n.plan = m.plan) (hunknown : n.windowUnknown = m.windowUnknown) (hgrid : n.grid = m.grid)
    (hactive : n.active = true → m.active = true) : Flagged p (ws ++ [w]) τ n where
  plan := hplan.trans h.plan
  unknown := by rw [hunknown, MetricPlan.windowUnknown_of_not_opens hw, h.unknown]
  opening ha := by
    rw [Work.opening?_concat, hw, hgrid]
    exact h.opening (hactive ha)

theorem Flagged.of_body {n : Metric} (h : Flagged p ws τ m) (hbody : n.body = m.body) : Flagged p ws τ n := by
  have hgrid : n.grid = m.grid := (congrArg Metric.grid hbody :)
  have hactive : n.active = m.active := (congrArg Metric.active hbody :)
  exact ⟨(congrArg Metric.plan hbody :).trans h.plan, (congrArg Metric.windowUnknown hbody :) ▸ h.unknown,
    fun ha => hgrid ▸ h.opening (hactive ▸ ha)⟩

theorem Flagged.activate (h : Flagged p ws τ m) (hp : Placed τ m) :
    Flagged p (ws ++ [⟨m, cs, τ, .activate⟩]) τ (m.activate cs τ) where
  plan := (activate_plan m cs τ).trans h.plan
  unknown := by rw [activate_unknown, MetricPlan.windowUnknown_of_opens rfl, h.plan]
  opening _ := by
    refine ⟨_, Work.opening?_concat ws _, Int.le_refl _, fun slot hs => ?_⟩
    rw [activate_grid] at hs
    split at hs
    next =>
      cases hs
      exact Int.le_refl _
    next => exact (hp.slot slot hs).2.1

theorem Flagged.roll {slot : Slot} (h : Flagged p ws slot.stop m) (hs : m.grid.current = some slot) :
    Flagged p (ws ++ [⟨m, cs, slot.stop, .roll slot⟩]) slot.stop (m.roll cs slot).state := by
  cases hgo : m.active && m.windows.isActive slot.stop with
  | false =>
      have hwork : Work.opensWindow ⟨m, cs, slot.stop, .roll slot⟩ = false := hgo
      refine ⟨(roll_plan m cs slot).trans h.plan, ?_, fun ha => by simp [roll_active, hgo] at ha⟩
      rw [roll_unknown, hgo, MetricPlan.windowUnknown_of_not_opens hwork]
      exact h.unknown
  | true =>
      have hwork : Work.opensWindow ⟨m, cs, slot.stop, .roll slot⟩ = true := hgo
      refine ⟨(roll_plan m cs slot).trans h.plan, ?_, fun _ => ⟨⟨m, cs, slot.stop, .roll slot⟩, ?_, Int.le_refl _, ?_⟩⟩
      · rw [roll_unknown, hgo, MetricPlan.windowUnknown_of_opens hwork, h.plan]
        rfl
      · rw [Work.opening?_concat, if_pos hwork]
      · intro slot' hs'
        rw [roll_grid, hgo, if_pos rfl, Grid.roll, hs] at hs'
        cases hs'
        exact Int.le_refl _

theorem flagged_logged (ms : Matchers) (p : MetricPlan) : Logged ms fun ws τ m _ => Flagged p ws τ m where
  wait h hle := ⟨h.plan, h.unknown, fun ha =>
    (h.opening ha).imp fun _ ⟨hw, ht, hs⟩ => ⟨hw, Int.le_trans ht hle, hs⟩⟩
  roll cs h _ hs _ := h.roll cs hs
  activate cs h hp _ _ _ := h.activate cs hp
  deactivate {_ τ m _} cs h _ _ := h.congr rfl (deactivate_plan m τ) (deactivate_windowUnknown m τ)
    (deactivate_grid m τ) (by simp)
  watch hits h := ⟨h.plan, h.unknown, h.opening⟩
  measure {_ m _} cs ev u h _ _ := by
    have hstill := m.measure_still cs ev (ms.judge ev) u
    have hactive := (congrArg Metric.active hstill :)
    exact h.congr rfl (congrArg Metric.plan hstill :) (congrArg Metric.windowUnknown hstill :)
      (congrArg Metric.grid hstill :) fun ha => hactive ▸ ha
  note {_ _ m _} o h := by cases o <;> exact ⟨h.plan, h.unknown, h.opening⟩
  flushPending {_ _ m _} h := h.of_body (body_flushPending m)

theorem flagged_start (hp : Placed τ m) (hidle : m.active = false) (hfresh : m.windowUnknown = false) :
    Flagged m.plan (m.startWorks cs τ) τ (m.start cs τ) := by
  have hbefore : Flagged m.plan [] τ m :=
    ⟨rfl, by simp [hfresh, MetricPlan.WindowUnknown, Work.opening?], fun ha => by simp [hidle] at ha⟩
  rw [startWorks, start]
  split
  · exact hbefore.activate cs hp
  · exact hbefore

end Metric

end EventMetrics
