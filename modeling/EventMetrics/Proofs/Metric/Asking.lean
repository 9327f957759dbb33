import EventMetrics.Proofs.Condition.Below
import EventMetrics.Proofs.Metric.Clock

namespace EventMetrics

/-- Conditions that give a metric the same signals. -/
def MetricPlan.Alike (p : MetricPlan) (cs cs' : Conditions) : Prop :=
  ∀ g, p.gate = some g → ∀ key, cs.query g.condition key = cs'.query g.condition key

def MetricPlan.ToldAlike (p : MetricPlan) (u u' : Condition.Update) : Prop :=
  ∀ g, p.gate = some g → u.isChanged g.condition = u'.isChanged g.condition

namespace Metric

variable {m : Metric} {cs cs' : Conditions}

section

variable (h : m.plan.Alike cs cs')
include h

theorem gateOpen_alike (link : Option DimensionKey) : m.gateOpen cs link = m.gateOpen cs' link := by
  rw [gateOpen, gateOpen]
  cases hg : m.plan.gate with
  | none => rfl
  | some g => simp only [h g hg]

theorem openWindow_alike : m.openWindow cs = m.openWindow cs' := by
  rw [openWindow, openWindow]
  cases hg : m.plan.gate with
  | none => rfl
  | some g => simp only [h g hg]

theorem activate_alike (time : Int) : m.activate cs time = m.activate cs' time := by
  have hopened : ∀ grid, Metric.openWindow { m with active := true, grid } cs =
      Metric.openWindow { m with active := true, grid } cs' := fun grid => openWindow_alike h
  have hgate : ∀ n : Metric, n.plan = m.plan → n.gateOpen cs = n.gateOpen cs' :=
    fun n hn => funext fun link => gateOpen_alike (hn ▸ h) link
  simp only [activate, hopened]
  exact congrArg _ (funext₂ fun t is => congrArg _ (hgate _ rfl))

theorem followWindows_alike (time : Int) : m.followWindows cs time = m.followWindows cs' time := by
  rw [followWindows, followWindows, activate_alike h]

theorem proceed_alike (slot : Slot) : m.proceed cs slot = m.proceed cs' slot := by
  have hopened : { m with grid := m.grid.roll }.openWindow cs = { m with grid := m.grid.roll }.openWindow cs' :=
    openWindow_alike h
  rw [proceed, proceed, hopened]

theorem roll_alike (slot : Slot) : m.roll cs slot = m.roll cs' slot := by
  have hplan : ((m.accrue slot.stop).flushBucket slot slot.stop true).state.plan = m.plan :=
    (congrArg Metric.plan (body_flushBucket (m.accrue slot.stop) slot slot.stop true) :).trans (accrue_plan m slot.stop)
  rw [roll_eq, roll_eq, Emitting.andThen, Emitting.andThen, proceed_alike (hplan ▸ h)]

theorem advance_alike (limit : Int) (inclusive : Bool) :
    m.advance cs limit inclusive = m.advance cs' limit inclusive := by
  have hsame : [] ++ (m.advance cs limit inclusive).records = [] ++ (m.advance cs' limit inclusive).records ∧
      (m.advance cs limit inclusive).state = (m.advance cs' limit inclusive).state ∧
      (m.advance cs limit inclusive).state.plan = m.plan :=
    advance_simulation (R := fun rs rs' n n' => rs = rs' ∧ n = n' ∧ n.plan = m.plan)
      (fun ⟨_, hn, _⟩ => hn ▸ rfl) (fun ⟨_, hn, _⟩ => hn ▸ rfl) (fun ⟨_, hn, _⟩ => hn ▸ rfl)
      (fun slot ⟨hrs, hn, hp⟩ => by
        subst hrs hn
        rw [roll_alike (hp ▸ h)]
        exact ⟨rfl, rfl, (roll_plan _ _ slot).trans hp⟩)
      (fun due ⟨hrs, hn, hp⟩ => ⟨hrs, hn ▸ rfl, (deactivate_plan _ due).trans hp⟩) ⟨rfl, rfl, rfl⟩
  exact congrArg₂ Emitting.mk hsame.2.1 hsame.1

theorem rollTo_alike (time : Int) : m.rollTo cs time = m.rollTo cs' time := by
  fun_induction Metric.rollTo m cs time with
  | case1 m hs => rw [rollTo, hs]
  | case2 m slot hs hle r hlt =>
      rename_i ih
      have hrest := ih ((roll_plan m cs slot).symm ▸ h)
      rw [rollTo, hs]
      simp only [hle, if_true, ← roll_alike h slot]
      rw [if_pos hlt]
      exact congrArg (fun q : Emitting Metric => Emitting.mk q.state (r.records ++ q.records)) hrest
  | case3 m slot hs hle r hlt =>
      rw [rollTo, hs]
      simp only [hle, if_true, ← roll_alike h slot]
      exact (if_neg hlt).symm
  | case4 m slot hs hle =>
      rw [rollTo, hs]
      simp only [hle, if_false]

theorem meet_alike (time : Int) : m.meet cs time = m.meet cs' time := by
  rw [meet, meet, rollTo_alike h]
  exact followWindows_alike ((rollTo_plan m cs' time).symm ▸ h) time

variable (e : Event)

theorem sampleSignal_alike : m.sampleSignal cs e = m.sampleSignal cs' e := by
  rw [sampleSignal, sampleSignal]
  cases hg : m.plan.gate with
  | none => rfl
  | some g => simp only [h g hg]

theorem judge_alike : m.judge cs e = m.judge cs' e := by
  rw [judge, judge, sampleSignal_alike h]

theorem startInterval_alike (t : Timing) (key : DimensionKey) :
    m.startInterval t cs e key = m.startInterval t cs' e key := by
  simp only [startInterval, gateOpen_alike h]

theorem turnInterval_alike (t : Timing) (hits : Hits) : m.turnInterval t cs e hits = m.turnInterval t cs' e hits := by
  simp only [turnInterval, startInterval_alike h]

theorem prepareIntervals_alike (t : Timing) (hits : Hits) {u u' : Condition.Update} (hu : m.plan.ToldAlike u u') :
    m.prepareIntervals t cs e hits u = m.prepareIntervals t cs' e hits u' := by
  have hgate : m.gateOpen cs = m.gateOpen cs' := funext (gateOpen_alike h)
  have hchanged : (m.plan.gate.any fun g => u.isChanged g.condition) =
      m.plan.gate.any fun g => u'.isChanged g.condition := by
    cases hg : m.plan.gate with
    | none => rfl
    | some g => simp only [Option.any_some, hu g hg]
  simp only [prepareIntervals, regate, hgate, hchanged]

theorem measure_alike (hits : Hits) {u u' : Condition.Update} (hu : m.plan.ToldAlike u u') :
    m.measure cs e hits u = m.measure cs' e hits u' := by
  cases hrule : m.plan.rule with
  | sampled what reading => simp only [measure, hrule, sampleEvent, judge_alike h]
  | passed what => simp only [measure, hrule, sampleEvent, judge_alike h]
  | timed t =>
      have hplan : (m.prepareIntervals t cs' e hits u').plan = m.plan :=
        (congrArg Metric.plan (prepareIntervals_still m cs' e hits u' t) :)
      simp only [measure, hrule]
      rw [prepareIntervals_alike h e t hits hu, turnInterval_alike (hplan.symm ▸ h)]

end

section

variable (h : m.plan.Alike cs cs') {u u' : Condition.Update} (hu : m.plan.ToldAlike u u')
include h hu

theorem onEvent_alike (e : Event) (hits : Hits) : m.onEvent cs e hits u = m.onEvent cs' e hits u' := by
  have hplan := meet_plan cs' m e.time
  rw [onEvent_eq, onEvent_eq, meet_alike h, rollTo_alike h,
    measure_alike (hplan.symm ▸ h) e hits (hplan.symm ▸ hu)]

theorem absorb_alike (e : Event) (hits : Hits) : m.absorb cs e hits u = m.absorb cs' e hits u' := by
  have hseen : (m.watch e.time hits).onEvent cs e hits u = (m.watch e.time hits).onEvent cs' e hits u' :=
    onEvent_alike (m := m.watch e.time hits) h hu e hits
  have hplan : ((m.watch e.time hits).onEvent cs' e hits u').1.state.plan = m.plan := by
    have hnote : ∀ (n : Metric) (o : Outcome), (n.note o).plan = n.plan := fun n o => by cases o <;> rfl
    rw [onEvent_eq, hnote]
    exact (congrArg Metric.plan (measure_still _ cs' e hits u') :).trans (meet_plan cs' _ e.time)
  rw [absorb_watch, absorb_watch, hseen]
  simp only [Emitting.andThen, advance_alike (hplan.symm ▸ h) e.time true]

end

end Metric

end EventMetrics
