import EventMetrics.Proofs.Bounded

namespace EventMetrics

inductive Deed
  /-- The open bucket ends. -/
  | roll (slot : Slot)
  | activate
  | deactivate
  /-- An event is measured, once the metric has come to it. -/
  | measure (ev : Event) (hits : Hits) (u : Condition.Update)
  /-- The open bucket is closed before its end. -/
  | close (slot : Slot)

/-- A part of the work of a metric. -/
structure Work where
  metric : Metric
  conditions : Conditions
  time : Int
  deed : Deed

namespace Work

def event? (w : Work) : Option Event :=
  match w.deed with
  | .measure ev _ _ => some ev
  | _ => none

def events (ws : List Work) : List Event := ws.filterMap event?

theorem events_append (ws ws' : List Work) : events (ws ++ ws') = events ws ++ events ws' := List.filterMap_append

theorem events_concat (ws : List Work) {w : Work} (h : w.event? = none) : events (ws ++ [w]) = events ws := by
  simp [events, h]

def outcome? (w : Work) : Option Outcome :=
  match w.deed with
  | .measure ev hits u => some (w.metric.measure w.conditions ev hits u).2
  | _ => none

end Work

namespace Metric

def startWorks (m : Metric) (cs : Conditions) (time : Int) : List Work :=
  if m.windows.isActive time then [⟨m, cs, time, .activate⟩] else []

def fireWork (m : Metric) (cs : Conditions) (due : Int) : Work where
  metric := m
  conditions := cs
  time := due
  deed := match m.grid.current with
    | some slot => if slot.stop ≤ due then .roll slot else .deactivate
    | none => .deactivate

def advanceWorks (m : Metric) (cs : Conditions) (limit : Int) (inclusive : Bool) : List Work :=
  match m.tick cs limit inclusive with
  | none => []
  | some r =>
    let works := m.nextDeadline.toList.map (m.fireWork cs)
    if r.state.remaining < m.remaining then works ++ r.state.advanceWorks cs limit inclusive else works
termination_by m.remaining

def rollToWorks (m : Metric) (cs : Conditions) (time : Int) : List Work :=
  match m.grid.current with
  | none => []
  | some slot =>
    if slot.stop ≤ time then
      let r := m.roll cs slot
      let work : Work := ⟨m, cs, slot.stop, .roll slot⟩
      if r.state.remaining < m.remaining then work :: r.state.rollToWorks cs time else [work]
    else []
termination_by m.remaining

def followWorks (m : Metric) (cs : Conditions) (time : Int) : List Work :=
  match m.active, m.windows.isActive time with
  | false, true => [⟨m, cs, time, .activate⟩]
  | true, false => [⟨m, cs, time, .deactivate⟩]
  | _, _ => []

def onEventWorks (m : Metric) (cs : Conditions) (ev : Event) (hits : Hits) (u : Condition.Update) : List Work :=
  let rolled := (m.rollTo cs ev.time).state
  m.rollToWorks cs ev.time ++ rolled.followWorks cs ev.time ++
    [⟨rolled.followWindows cs ev.time, cs, ev.time, .measure ev hits u⟩]

def absorbWorks (m : Metric) (cs : Conditions) (ev : Event) (hits : Hits) (u : Condition.Update) : List Work :=
  let m := { m with windows := m.windows.onEvent ev.time hits }
  m.onEventWorks cs ev hits u ++ (m.onEvent cs ev hits u).1.state.advanceWorks cs ev.time true

def closeWorks (m : Metric) (cs : Conditions) (now : Int) : List Work :=
  m.grid.current.toList.map fun slot => ⟨m, cs, now, .close slot⟩

def shutdownWorks (m : Metric) (cs : Conditions) (now : Int) : List Work :=
  m.advanceWorks cs now false ++ (m.advance cs now false).state.closeWorks cs now

/-- From the timers before an event on: `cs` are the conditions before it. -/
def visitWorks (m : Metric) (cs : Conditions) (ev : Event) (hits : Hits) : List Work :=
  let (conditions, update) := cs.onEvent ev hits
  m.advanceWorks cs ev.time false ++ (m.advance cs ev.time false).state.absorbWorks conditions ev hits update

section Events

variable (m : Metric) (cs : Conditions)

theorem events_startWorks (time : Int) : Work.events (m.startWorks cs time) = [] := by
  rw [startWorks]
  split <;> rfl

theorem event?_fireWork (due : Int) : (m.fireWork cs due).event? = none := by
  rw [Work.event?, fireWork]
  cases m.grid.current with
  | none => rfl
  | some slot => by_cases hle : slot.stop ≤ due <;> simp [hle]

theorem events_advanceWorks (limit : Int) (inclusive : Bool) :
    Work.events (m.advanceWorks cs limit inclusive) = [] := by
  have hfire : ∀ m : Metric, Work.events (m.nextDeadline.toList.map (m.fireWork cs)) = [] := by
    intro m
    cases m.nextDeadline <;> simp [Work.events, event?_fireWork]
  fun_induction advanceWorks m cs limit inclusive with
  | case1 m ht => rfl
  | case2 m r ht works hlt ih =>
      rw [Work.events_append, ih, List.append_nil]
      exact hfire m
  | case3 m r ht works hlt => exact hfire m

theorem events_rollToWorks (time : Int) : Work.events (m.rollToWorks cs time) = [] := by
  fun_induction rollToWorks m cs time with
  | case1 m hs => rfl
  | case2 m slot hs hle r work hlt ih => exact ih
  | case3 m slot hs hle r work hlt => rfl
  | case4 m slot hs hle => rfl

theorem events_followWorks (time : Int) : Work.events (m.followWorks cs time) = [] := by
  rw [followWorks]
  split <;> rfl

theorem events_absorbWorks (ev : Event) (hits : Hits) (u : Condition.Update) :
    Work.events (m.absorbWorks cs ev hits u) = [ev] := by
  simp only [absorbWorks, onEventWorks, Work.events_append, events_rollToWorks, events_followWorks,
    events_advanceWorks]
  rfl

theorem events_visitWorks (ev : Event) (hits : Hits) : Work.events (m.visitWorks cs ev hits) = [ev] := by
  simp only [visitWorks, Work.events_append, events_advanceWorks, events_absorbWorks, List.nil_append]

theorem events_closeWorks (now : Int) : Work.events (m.closeWorks cs now) = [] := by
  rw [closeWorks]
  cases m.grid.current <;> rfl

theorem events_shutdownWorks (now : Int) : Work.events (m.shutdownWorks cs now) = [] := by
  simp only [shutdownWorks, Work.events_append, events_advanceWorks, events_closeWorks, List.nil_append]

end Events

end Metric

end EventMetrics
