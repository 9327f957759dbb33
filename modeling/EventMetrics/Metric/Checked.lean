import EventMetrics.Metric

namespace EventMetrics

inductive Fault
  /-- A number left its word, which stops the program. -/
  | overflow
  deriving DecidableEq, Repr

/-- What a call comes to that may never end, in which case nothing does, or may stop by a fault. -/
abbrev Checked := ExceptT Fault Option

namespace Checked

/-- `a`, if every number on the way to it fits in its word. -/
def guard {α : Type} (fits : Bool) (a : α) : Checked α := if fits then pure a else throw .overflow

def result? {α : Type} (x : Checked α) : Option α :=
  match x.run with
  | some (.ok a) => some a
  | _ => none

end Checked

def Emitting.exhaust! {α : Type} (step : α → Checked (Option (Emitting α))) (r : Emitting α) :
    Option (Except Fault (Emitting α)) := do
  match ← (step r.state).run with
  | .error f => return .error f
  | .ok none => return .ok r
  | .ok (some q) => (exhaust! (r := ⟨q.state, r.records ++ q.records⟩)) step
partial_fixpoint

namespace Metric

def intervalsFit (m : Metric) (fits : Timing → Intervals → Bool) : Bool :=
  match m.plan.rule with
  | .timed t => fits t m.intervals
  | _ => true

/-- Whether words hold all that an activation reckons with: the number of a bucket that opens, and what is
cut where the gate is closed. -/
def activateFits (m : Metric) (cs : Conditions) (time : Int) : Bool :=
  let opens := m.plan.isBucketed && m.grid.current.isNone
  (!opens || m.grid.openFits time) &&
    m.intervalsFit fun t is => is.cutsFit t.aggregation time (gateOpen { m with active := true } cs)

def deactivateFits (m : Metric) (time : Int) : Bool :=
  m.intervalsFit fun t is => is.cutsFit t.aggregation time fun _ => false

def startFits (m : Metric) (cs : Conditions) (time : Int) : Bool :=
  !m.windows.isActive time || m.activateFits cs time

/-- Intervals are cut at the end of the bucket, and again at the same instant if activity ends there. -/
def rollFits (m : Metric) (slot : Slot) : Bool :=
  let accrued := m.onIntervals fun t is => is.accrueTo t.aggregation slot.stop
  let flushed := (accrued.flushBucket slot slot.stop true).state
  (m.intervalsFit fun t is => is.cutsFit t.aggregation slot.stop fun _ => false) &&
    if flushed.active && flushed.windows.isActive slot.stop then Grid.nextFits slot
    else !flushed.active || flushed.deactivateFits slot.stop

def fireFits (m : Metric) (due : Int) : Bool :=
  let expires := m.active && !m.windows.isActive due
  match m.grid.current with
  | some slot =>
    if slot.stop ≤ due then m.rollFits slot else !expires || m.deactivateFits due
  | none => !expires || m.deactivateFits due

def tick! (m : Metric) (cs : Conditions) (limit : Int) (inclusive : Bool) :
    Checked (Option (Emitting Metric)) :=
  match m.nextDeadline with
  | none => pure none
  | some d =>
    if limit < d ∨ (!inclusive ∧ d = limit) then pure none else .guard (m.fireFits d) (m.fire cs d)

def advance! (m : Metric) (cs : Conditions) (limit : Int) (inclusive : Bool) : Checked (Emitting Metric) :=
  .mk (Emitting.exhaust! (·.tick! cs limit inclusive) ⟨m, []⟩)

def rollPast! (m : Metric) (cs : Conditions) (time : Int) : Checked (Option (Emitting Metric)) :=
  match m.grid.current with
  | some slot => if slot.stop ≤ time then .guard (m.rollFits slot) (some (m.roll cs slot)) else pure none
  | none => pure none

def rollTo! (m : Metric) (cs : Conditions) (time : Int) : Checked (Emitting Metric) :=
  .mk (Emitting.exhaust! (·.rollPast! cs time) ⟨m, []⟩)

def followWindows! (m : Metric) (cs : Conditions) (time : Int) : Checked Metric :=
  match m.active, m.windows.isActive time with
  | false, true => .guard (m.activateFits cs time) (m.activate cs time)
  | true, false => .guard (m.deactivateFits time) (m.deactivate time)
  | _, _ => pure m

def prepareFits (m : Metric) (t : Timing) (cs : Conditions) (e : Event) (hits : Hits)
    (u : Condition.Update) : Bool :=
  let changed := m.plan.gate.any fun g => u.isChanged g.condition
  let asked := if changed then m.regate t cs e.time else m
  (!changed || m.intervals.cutsFit t.aggregation e.time (m.gateOpen cs)) &&
    (!t.stopAll.any hits.get || asked.intervals.cutsFit t.aggregation e.time fun _ => false)

def turnFits (m : Metric) (t : Timing) (e : Event) (hits : Hits) : Bool :=
  match hits.get t.start, hits.get t.stop, DimensionKey.extract? e m.plan.dimensions with
  | true, false, some key =>
    match m.intervalLink e with
    | .ok _ => m.intervals.startFits t.nested key
    | .error _ => true
  | false, true, some key => m.intervals.stopFits t.aggregation t.nested e.time key
  | _, _, _ => true

def measureFits (m : Metric) (cs : Conditions) (e : Event) (hits : Hits) (u : Condition.Update) : Bool :=
  m.intervalsFit fun t _ => m.prepareFits t cs e hits u && (m.prepareIntervals t cs e hits u).turnFits t e hits

def measure! (m : Metric) (cs : Conditions) (e : Event) (hits : Hits) (u : Condition.Update) :
    Checked (Emitting Metric × Outcome) :=
  .guard (m.measureFits cs e hits u) (m.measure cs e hits u)

def onEvent! (m : Metric) (cs : Conditions) (e : Event) (hits : Hits) (u : Condition.Update) :
    Checked (Emitting Metric × Outcome) := do
  let rolled ← m.rollTo! cs e.time
  let followed ← rolled.state.followWindows! cs e.time
  let (measured, outcome) ← followed.measure! cs e hits u
  return (⟨measured.state.note outcome, rolled.records ++ measured.records⟩, outcome)

def absorb! (m : Metric) (cs : Conditions) (e : Event) (hits : Hits) (u : Condition.Update) :
    Checked (Emitting Metric × Outcome) := do
  let m := { m with windows := m.windows.onEvent e.time hits }
  let (r, outcome) ← m.onEvent! cs e hits u
  let q ← r.state.advance! cs e.time true
  return ((r.andThen fun _ => q).andThen flushPending, outcome)

/-- Fires the timers before `now` and reports what they skipped. -/
def advanceTo! (m : Metric) (cs : Conditions) (now : Int) : Checked (Emitting Metric) := do
  return (← m.advance! cs now false).andThen flushPending

def closeFits (m : Metric) (now : Int) : Bool :=
  match m.grid.current with
  | none => true
  | some slot => m.intervalsFit fun t is => is.cutsFit t.aggregation (max now slot.start) fun _ => false

def shutdown! (m : Metric) (cs : Conditions) (now : Int) : Checked (Emitting Metric) := do
  let r ← m.advance! cs now false
  let q ← Checked.guard (r.state.closeFits now) (r.state.closeAt now)
  return (r.andThen fun _ => q).andThen flushPending

end Metric

end EventMetrics
