import EventMetrics.Proofs.Metric.Asking
import EventMetrics.Proofs.Metric.Passing
import EventMetrics.Proofs.Metric.Sparing
import EventMetrics.Proofs.Metric.Tally

namespace EventMetrics

open Conditions (AgreeOn Closed)

def Activation.matchers (a : Activation) : List Nat := a.trigger :: a.deactivate.toList

theorem Activation.onEvent_silent {a : Activation} {hits : Hits} (h : ∀ i ∈ a.matchers, hits.get i = false)
    (time : Int) : a.onEvent time hits = a := by
  have htrigger := h a.trigger (by simp [matchers])
  have hclose : a.deactivate.any hits.get = false := by
    cases hd : a.deactivate with
    | none => rfl
    | some i => exact h i (by simp [matchers, hd])
  simp only [onEvent, htrigger, hclose, Bool.false_eq_true, if_false]

theorem MetricPlan.alike_of_agreeOn {p : MetricPlan} {S : Nat → Prop} {cs cs' : Conditions} (h : AgreeOn S cs cs')
    (hS : Closed S cs.nodes) (hgate : ∀ g, p.gate = some g → S g.condition) : p.Alike cs cs' :=
  fun g hg key => h.query hS (hgate g hg) key

namespace Metric

open Instant (last)

variable {m : Metric} {cs : Conditions} {ev : Event} {hits : Hits}

def Asks (m : Metric) (cs : Conditions) (j : Nat) : Prop := ∃ g, m.plan.gate = some g ∧ cs.Below g.condition j

/-- The matchers by which the condition or the windows of a metric go. -/
def Sways (m : Metric) (cs : Conditions) (i : Nat) : Prop :=
  (∃ a ∈ m.windows, i ∈ a.matchers) ∨ ∃ j d, m.Asks cs j ∧ cs.nodes[j]? = some d ∧ i ∈ d.matchers

def Heeds (m : Metric) (cs : Conditions) (i : Nat) : Prop := i ∈ m.plan.rule.own ∨ m.Sways cs i

def Unswayed (m : Metric) (cs : Conditions) (hits : Hits) : Prop := ∀ i, m.Sways cs i → hits.get i = false

theorem closed_asks (m : Metric) (cs : Conditions) : Closed (m.Asks cs) cs.nodes := by
  rintro i d ⟨g, hg, hi⟩ hd j hj
  exact ⟨g, hg, hi.child hd hj⟩

theorem Sways.congr {n : Metric} {i : Nat} (h : m.Sways cs i) (hplan : n.plan = m.plan)
    (hwindows : n.windows = m.windows) : n.Sways cs i := by
  obtain ⟨a, ha, hi⟩ | ⟨j, d, ⟨g, hg, hj⟩, hd, hi⟩ := h
  · exact .inl ⟨a, hwindows ▸ ha, hi⟩
  · exact .inr ⟨j, d, ⟨g, hplan ▸ hg, hj⟩, hd, hi⟩

theorem Heeds.congr {n : Metric} {i : Nat} (h : m.Heeds cs i) (hplan : n.plan = m.plan)
    (hwindows : n.windows = m.windows) : n.Heeds cs i :=
  Or.imp (fun hi => hplan ▸ hi) (fun hi => hi.congr hplan hwindows) h

namespace Unswayed

theorem congr {n : Metric} (h : m.Unswayed cs hits) (hplan : n.plan = m.plan) (hwindows : n.windows = m.windows) :
    n.Unswayed cs hits :=
  fun i hi => h i (hi.congr hplan.symm hwindows.symm)

theorem watch (h : m.Unswayed cs hits) (time : Int) : m.watch time hits = m := by
  have hwindows : m.windows.onEvent time hits = m.windows :=
    (List.map_congr_left fun a ha => Activation.onEvent_silent (fun i hi => h i (.inl ⟨a, ha, hi⟩)) time).trans
      (List.map_id _)
  rw [Metric.watch, hwindows]

theorem silent (h : m.Unswayed cs hits) : Conditions.Silent (m.Asks cs) cs.nodes hits :=
  fun j d hj hd i hi => h i (.inr ⟨j, d, hj, hd, hi⟩)

theorem agreeOn (h : m.Unswayed cs hits) (ev : Event) : AgreeOn (m.Asks cs) (cs.onEvent ev hits).1 cs :=
  (h.silent.onEvent (m.closed_asks cs) ev).1

theorem alike (h : m.Unswayed cs hits) (ev : Event) : m.plan.Alike (cs.onEvent ev hits).1 cs :=
  MetricPlan.alike_of_agreeOn (h.agreeOn ev) ((h.agreeOn ev).symm.closed (m.closed_asks cs))
    fun g hg => ⟨g, hg, .self⟩

theorem not_isChanged (h : m.Unswayed cs hits) (ev : Event) {g : Gate} (hg : m.plan.gate = some g) :
    (cs.onEvent ev hits).2.isChanged g.condition = false :=
  (h.silent.onEvent (m.closed_asks cs) ev).2 g.condition ⟨g, hg, .self⟩

end Unswayed

/-- What a metric makes of an event for itself, once time, windows and conditions have followed it. -/
def reckon (m : Metric) (cs : Conditions) (e : Event) (hits : Hits) (u : Condition.Update) :
    Emitting Metric × Outcome :=
  let r := m.measure cs e hits u
  (⟨r.1.state.note r.2, r.1.records⟩, r.2)

theorem see_unswayed (h : m.Unswayed cs hits) : m.see cs ev hits =
    (⟨((m.meet cs ev.time).reckon (cs.onEvent ev hits).1 ev hits (cs.onEvent ev hits).2).1.state,
        (m.rollTo cs ev.time).records ++
          ((m.meet cs ev.time).reckon (cs.onEvent ev hits).1 ev hits (cs.onEvent ev hits).2).1.records⟩,
      ((m.meet cs ev.time).reckon (cs.onEvent ev hits).1 ev hits (cs.onEvent ev hits).2).2) := by
  rw [see, h.watch, onEvent_eq, meet_alike (h.alike ev), rollTo_alike (h.alike ev)]
  rfl

/-- An event that does not sway a metric comes to it after its timers, those at the instant itself among them. -/
theorem visit_unswayed (h : OnTime ev.time (m.advance cs ev.time false).state) (hm : Paced m)
    (hpass : Passes ev.time m) (hlast : ev.time ≤ last) (hhits : m.Unswayed cs hits) : m.visit cs ev hits =
      ((m.advance cs ev.time true).andThen fun n =>
          (n.reckon (cs.onEvent ev hits).1 ev hits (cs.onEvent ev hits).2).1.andThen flushPending,
        ((m.advance cs ev.time true).state.reckon (cs.onEvent ev hits).1 ev hits (cs.onEvent ev hits).2).2) := by
  have hplan := advance_plan m cs ev.time false
  have hwindows := advance_windows m cs ev.time false
  have hstill : (m.advance cs ev.time false).state.Unswayed cs hits := hhits.congr hplan hwindows
  have hpassed : Passes ev.time (m.advance cs ev.time false).state := hpass.congr hplan hwindows
  rw [visit_eq h.toPlaced ((hstill.watch ev.time).symm ▸ hpassed), ← advance_now hm hlast]
  simp only [Emitting.andThen, see_unswayed hstill, advance_now_eq cs h hpassed, List.append_assoc]

theorem reckon_unheeded {u : Condition.Update} (hown : ∀ i ∈ m.plan.rule.own, hits.get i = false)
    (htold : ∀ g, m.plan.gate = some g → u.isChanged g.condition = false) :
    m.reckon cs ev hits u = (⟨m, []⟩, .ignored) := by
  have hmeasure : m.measure cs ev hits u = _ := measure_unturned fun i hi => hown i (List.mem_append_left _ hi)
  cases hrule : m.plan.rule with
  | sampled | passed => simp only [reckon, hmeasure, hrule, note]
  | timed t =>
      have hchanged : (m.plan.gate.any fun g => u.isChanged g.condition) = false := by
        cases hg : m.plan.gate with
        | none => rfl
        | some g => exact htold g hg
      have hall : t.stopAll.any hits.get = false := by
        cases hs : t.stopAll with
        | none => rfl
        | some i => exact hown i (List.mem_append_right _ (by simp [hrule, MeasureRule.stopAll, hs]))
      simp only [reckon, hmeasure, hrule, prepareIntervals, hchanged, hall, Bool.false_eq_true, if_false, note]

end Metric

end EventMetrics
