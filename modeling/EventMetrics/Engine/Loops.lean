import EventMetrics.Engine

namespace EventMetrics

/-- Takes step after step until there is none. Steps without end come to nothing. The calls made of this loop
are those of a program whose numbers fit in any word. -/
def Emitting.exhaust {α : Type} (step : α → Option (Emitting α)) (r : Emitting α) : Option (Emitting α) :=
  match step r.state with
  | none => some r
  | some q => (exhaust (r := ⟨q.state, r.records ++ q.records⟩)) step
partial_fixpoint

namespace Metric

def advance? (m : Metric) (cs : Conditions) (limit : Int) (inclusive : Bool) : Option (Emitting Metric) :=
  Emitting.exhaust (·.tick cs limit inclusive) ⟨m, []⟩

def rollPast (m : Metric) (cs : Conditions) (time : Int) : Option (Emitting Metric) :=
  match m.grid.current with
  | some slot => if slot.stop ≤ time then some (m.roll cs slot) else none
  | none => none

def rollTo? (m : Metric) (cs : Conditions) (time : Int) : Option (Emitting Metric) :=
  Emitting.exhaust (·.rollPast cs time) ⟨m, []⟩

def onEvent? (m : Metric) (cs : Conditions) (e : Event) (hits : Hits) (u : Condition.Update) :
    Option (Emitting Metric × Outcome) := do
  let rolled ← m.rollTo? cs e.time
  let (measured, outcome) := (rolled.state.followWindows cs e.time).measure cs e hits u
  return (⟨measured.state.note outcome, rolled.records ++ measured.records⟩, outcome)

def absorb? (m : Metric) (cs : Conditions) (e : Event) (hits : Hits) (u : Condition.Update) :
    Option (Emitting Metric × Outcome) := do
  let m := { m with windows := m.windows.onEvent e.time hits }
  let (r, outcome) ← m.onEvent? cs e hits u
  let q ← r.state.advance? cs e.time true
  return ((r.andThen fun _ => q).andThen flushPending, outcome)

def advanceTo? (m : Metric) (cs : Conditions) (now : Int) : Option (Emitting Metric) :=
  (m.advance? cs now false).map (·.andThen flushPending)

def shutdown? (m : Metric) (cs : Conditions) (now : Int) : Option (Emitting Metric) :=
  (m.advance? cs now false).map fun r => (r.andThen (·.closeAt now)).andThen flushPending

end Metric

namespace Engine

def take? (e : Engine) (ev : Event) : Option (Engine × Ingest) := do
  let advanced ← e.metrics.mapM (·.advance? e.conditions ev.time false)
  let hits := e.matchers.judge ev
  let (conditions, update) := e.conditions.onEvent ev hits
  let absorbed ← advanced.mapM fun r => r.state.absorb? conditions ev hits update
  return e.conclude ev conditions update advanced absorbed

def process? (e : Engine) (ev : Event) : Option (Engine × Ingest) :=
  if e.closed then some (e, .closed)
  else
    let (e, reached) := e.ensureStarted ev.time
    if ev.time < reached then
      some ({ e with drops := e.drops.record .outOfOrder }, .dropped .outOfOrder)
    else e.take? ev

def advanceTo? (e : Engine) (now : Int) : Option Engine :=
  if e.closed then some e
  else
    let (e, reached) := e.ensureStarted now
    if now < reached then some e
    else do return e.settle (← e.metrics.mapM (·.advanceTo? e.conditions now)) now

def shutdown? (e : Engine) (now : Int) : Option Engine :=
  if e.closed then some e
  else
    let (e, reached) := e.ensureStarted now
    let now := max now reached
    do return { e.settle (← e.metrics.mapM (·.shutdown? e.conditions now)) now with closed := true }

end Engine

end EventMetrics
