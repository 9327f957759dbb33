import EventMetrics.Engine.Compile

namespace EventMetrics

structure EngineOptions where
  /-- The first instant; without it, that of the first call. -/
  start : Option Int := none
  dimensionLimit : Nat := 800
  deriving DecidableEq, Repr

inductive Ingest
  | accepted
  /-- Older than the engine, or dropped by every metric that it was for. -/
  | dropped (reason : DropReason)
  | closed
  deriving DecidableEq, Repr

structure Engine where
  matchers : Matchers
  conditions : Conditions
  metrics : List Metric
  startTime : Option Int
  /-- The latest instant reached, once there was a call. -/
  watermark : Option Int := none
  closed : Bool := false
  queue : List Record := []
  processed : Nat := 0
  drops : DropCounts := {}

namespace Engine

def compile (d : Definitions) (options : EngineOptions) : Except Definition.Error Engine := do
  let c ← d.compile options.dimensionLimit
  return { matchers := c.matchers, conditions := c.conditions, metrics := c.metrics
           startTime := options.start }

def metricIds (e : Engine) : List String := e.metrics.map (·.plan.id)

/-- The first call starts the metrics; gives the instant reached so far. -/
def ensureStarted (e : Engine) (time : Int) : Engine × Int :=
  match e.watermark with
  | some w => (e, w)
  | none =>
    let start := e.startTime.getD time
    ({ e with metrics := e.metrics.map (·.start e.conditions start), watermark := some start }, start)

def settle (e : Engine) (steps : List (Emitting Metric)) (reached : Int) : Engine :=
  { e with
    metrics := steps.map (·.state)
    watermark := some reached
    queue := e.queue ++ steps.flatMap (·.records) }

/-- The first reason for which a metric, or else a condition, dropped the event. -/
def firstDrop (outcomes : List Outcome) (u : Condition.Update) : Option DropReason :=
  let ofMetric : Outcome → Option DropReason
    | .dropped r => some r
    | _ => none
  (outcomes.findSome? ofMetric).or (u.dropped.head?.map (·.2))

/-- An event counts as accepted if some metric accepted it or none dropped it. -/
def verdict (outcomes : List Outcome) (u : Condition.Update) : Ingest :=
  match firstDrop outcomes u with
  | some r => if outcomes.contains .accepted then .accepted else .dropped r
  | none => .accepted

def conclude (e : Engine) (ev : Event) (conditions : Conditions) (update : Condition.Update)
    (advanced : List (Emitting Metric)) (absorbed : List (Emitting Metric × Outcome)) : Engine × Ingest :=
  let e : Engine := { e with
    conditions
    processed := e.processed + 1
    drops := update.dropped.foldl (fun c d => c.record d.2) e.drops
    queue := e.queue ++ advanced.flatMap (·.records) }
  (e.settle (absorbed.map (·.1)) ev.time, verdict (absorbed.map (·.2)) update)

def drain (e : Engine) : Engine × List Record := ({ e with queue := [] }, e.queue)

def nextDeadline (e : Engine) : Option Int :=
  e.metrics.foldl
    (fun least m =>
      match least, m.nextDeadline with
      | some a, some b => some (min a b)
      | some a, none => some a
      | none, d => d)
    none

def isActiveAt (e : Engine) (id : String) (now : Int) : Option Bool :=
  (e.metrics.find? (·.plan.id = id)).map (·.windows.isActive now)

def isActive (e : Engine) (id : String) : Option Bool :=
  e.isActiveAt id ((e.watermark.or e.startTime).getD Instant.first)

end Engine

end EventMetrics
