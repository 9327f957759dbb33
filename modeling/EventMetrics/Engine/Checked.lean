import EventMetrics.Engine
import EventMetrics.Metric.Checked

namespace EventMetrics.Engine

def ensureStarted! (e : Engine) (time : Int) : Checked (Engine × Int) :=
  let fits := e.watermark.isSome || e.metrics.all (·.startFits e.conditions (e.startTime.getD time))
  .guard fits (e.ensureStarted time)

def take! (e : Engine) (ev : Event) : Checked (Engine × Ingest) := do
  let advanced ← e.metrics.mapM (·.advance! e.conditions ev.time false)
  let hits := e.matchers.judge ev
  let (conditions, update) ← Checked.guard (e.conditions.countsFit ev hits) (e.conditions.onEvent ev hits)
  let absorbed ← advanced.mapM fun r => r.state.absorb! conditions ev hits update
  return e.conclude ev conditions update advanced absorbed

def process! (e : Engine) (ev : Event) : Checked (Engine × Ingest) :=
  if e.closed then pure (e, .closed)
  else do
    let (e, reached) ← e.ensureStarted! ev.time
    if ev.time < reached then
      return ({ e with drops := e.drops.record .outOfOrder }, .dropped .outOfOrder)
    else e.take! ev

/-- Fires the timers before `now`. Those at `now` wait, so that events stamped `now` still come
first. A call behind the engine changes nothing. -/
def advanceTo! (e : Engine) (now : Int) : Checked Engine :=
  if e.closed then pure e
  else do
    let (e, reached) ← e.ensureStarted! now
    if now < reached then return e
    else return e.settle (← e.metrics.mapM (·.advanceTo! e.conditions now)) now

/-- Closes every open bucket at `now`, or where the engine already is. -/
def shutdown! (e : Engine) (now : Int) : Checked Engine :=
  if e.closed then pure e
  else do
    let (e, reached) ← e.ensureStarted! now
    let now := max now reached
    return { e.settle (← e.metrics.mapM (·.shutdown! e.conditions now)) now with closed := true }

end EventMetrics.Engine
