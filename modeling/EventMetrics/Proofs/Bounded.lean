import EventMetrics.Engine

namespace EventMetrics

namespace Metric

/-- What is left to happen: the time after the open bucket, and the end of activity. Every timer lessens it,
except where time itself ends. -/
def remaining (m : Metric) : Nat :=
  (match m.grid.current with
    | some slot => (Instant.last - slot.stop).toNat + 2
    | none => 0) + (if m.active then 1 else 0)

/-- What firing all timers before `limit`, or up to it, comes to. Where it comes to no end, because a bucket
without length follows itself at the last instant, this stops after the first one. -/
def advance (m : Metric) (cs : Conditions) (limit : Int) (inclusive : Bool) : Emitting Metric :=
  match m.tick cs limit inclusive with
  | none => ⟨m, []⟩
  | some r =>
    if r.state.remaining < m.remaining then
      let q := r.state.advance cs limit inclusive
      ⟨q.state, r.records ++ q.records⟩
    else r
termination_by m.remaining

def rollTo (m : Metric) (cs : Conditions) (time : Int) : Emitting Metric :=
  match m.grid.current with
  | none => ⟨m, []⟩
  | some slot =>
    if slot.stop ≤ time then
      let r := m.roll cs slot
      if r.state.remaining < m.remaining then
        let q := r.state.rollTo cs time
        ⟨q.state, r.records ++ q.records⟩
      else r
    else ⟨m, []⟩
termination_by m.remaining

def onEvent (m : Metric) (cs : Conditions) (e : Event) (hits : Hits) (u : Condition.Update) :
    Emitting Metric × Outcome :=
  let rolled := m.rollTo cs e.time
  let (measured, outcome) := (rolled.state.followWindows cs e.time).measure cs e hits u
  (⟨measured.state.note outcome, rolled.records ++ measured.records⟩, outcome)

def absorb (m : Metric) (cs : Conditions) (e : Event) (hits : Hits) (u : Condition.Update) :
    Emitting Metric × Outcome :=
  let m := { m with windows := m.windows.onEvent e.time hits }
  let (r, outcome) := m.onEvent cs e hits u
  ((r.andThen fun m => m.advance cs e.time true).andThen flushPending, outcome)

def advanceTo (m : Metric) (cs : Conditions) (now : Int) : Emitting Metric :=
  (m.advance cs now false).andThen flushPending

def shutdown (m : Metric) (cs : Conditions) (now : Int) : Emitting Metric :=
  ((m.advance cs now false).andThen (·.closeAt now)).andThen flushPending

end Metric

namespace Engine

def apply (e : Engine) (ev : Event) : Engine × Ingest :=
  let advanced : List (Emitting Metric) := e.metrics.map (·.advance e.conditions ev.time false)
  let hits := e.matchers.judge ev
  let (conditions, update) := e.conditions.onEvent ev hits
  let absorbed : List (Emitting Metric × Outcome) :=
    advanced.map fun r => r.state.absorb conditions ev hits update
  e.conclude ev conditions update advanced absorbed

/-- What comes of an event in exact numbers and without loops: `process!_eq` says when a program comes to it. -/
def process (e : Engine) (ev : Event) : Engine × Ingest :=
  if e.closed then (e, .closed)
  else
    let (e, reached) := e.ensureStarted ev.time
    if ev.time < reached then
      ({ e with drops := e.drops.record .outOfOrder }, .dropped .outOfOrder)
    else e.apply ev

def advanceTo (e : Engine) (now : Int) : Engine :=
  if e.closed then e
  else
    let (e, reached) := e.ensureStarted now
    if now < reached then e else e.settle (e.metrics.map (·.advanceTo e.conditions now)) now

def shutdown (e : Engine) (now : Int) : Engine :=
  if e.closed then e
  else
    let (e, reached) := e.ensureStarted now
    let now := max now reached
    { e.settle (e.metrics.map (·.shutdown e.conditions now)) now with closed := true }

end Engine

end EventMetrics
