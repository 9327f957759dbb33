import EventMetrics.Metric

namespace EventMetrics

open Definition (Referrer)

namespace MetricPlan

/-- The links in the order of the condition's dimensions, each of which is linked once. -/
def bindLinks (referrer : Referrer) (links : List Definition.Link) (dimensions : List String) :
    Except Definition.Error (List (String × String)) :=
  if links.isEmpty then .ok []
  else if dimensions.isEmpty then .error (.linksNeedSlices referrer)
  else if links.length ≠ dimensions.length then .error (.linkCount referrer dimensions)
  else
    dimensions.mapM fun d =>
      match links.find? (·.condition = d) with
      | some l => .ok (l.what, d)
      | none => .error (.unlinkedDimension referrer d)

def compileRule (referrer : Referrer) (matchers : Matchers) :
    Definition.Measure → Except Definition.Error MeasureRule
  | .value what field aggregation => do
    return .sampled (← matchers.resolve? referrer what) (.field field aggregation)
  | .count what => do return .sampled (← matchers.resolve? referrer what) .count
  | .duration start stop stopAll nested aggregation => do
    if start = stop then throw (.sameStartStop referrer start)
    let start ← matchers.resolve? referrer start
    let stop ← matchers.resolve? referrer stop
    let stopAll ← stopAll.mapM (matchers.resolve? referrer)
    return .timed { start, stop, stopAll, nested, aggregation }
  | .event what => do return .passed (← matchers.resolve? referrer what)

def compileGate (referrer : Referrer) (conditions : Conditions) (d : Definition.Metric) :
    Except Definition.Error (Option Gate) :=
  match d.condition with
  | some id => do
    let condition ← conditions.resolve? referrer id
    let links ← bindLinks referrer d.links (conditions.dimensions condition)
    return some { condition, links }
  | none => if d.links.isEmpty then .ok none else .error (.linksWithoutCondition referrer)

end MetricPlan

def Definition.Metric.bucketSize (d : Definition.Metric) : Int := (d.bucket.map Span.toInstant).getD 0

def Metric.compile (d : Definition.Metric) (alerts : List Definition.Alert) (matchers : Matchers)
    (conditions : Conditions) (limit : Nat) : Except Definition.Error Metric := do
  let windows ← Activations.compile matchers d.id d.activations
  let referrer := Referrer.metric d.id
  if d.measure.isBucketed ∧ d.bucketSize ≤ 0 then throw (.bucketSize referrer)
  if !d.measure.isBucketed ∧ !alerts.isEmpty then throw (.alertsNeedBuckets referrer)
  let rule ← MetricPlan.compileRule referrer matchers d.measure
  let gate ← MetricPlan.compileGate referrer conditions d
  return {
    plan := { id := d.id, rule, gate, dimensions := d.dimensions
              maxDimensions := d.maxDimensions.getD limit }
    grid := { size := d.bucketSize }
    windows
    trackers := alerts.map fun a => { rule := .ofDefinition a } }

def checkAlerts (metrics : List String) (seen : List String) :
    List Definition.Alert → Except Definition.Error Unit
  | [] => .ok ()
  | a :: rest =>
    if a.id ∈ seen then .error (.duplicateAlert a.id)
    else if a.metric ∉ metrics then .error (.alertUnknownMetric a.id a.metric)
    else if a.numBuckets = 0 then .error (.alertWithoutBuckets a.id)
    else checkAlerts metrics (a.id :: seen) rest

structure Compiled where
  matchers : Matchers
  conditions : Conditions
  metrics : List Metric

/-- `limit` bounds the keys of conditions and metrics that set no limit of their own. -/
def Definitions.compile (d : Definitions) (limit : Nat) : Except Definition.Error Compiled := do
  if d.metrics.isEmpty then throw .noMetrics
  if limit = 0 then throw .noDimensionLimit
  let matchers ← Matchers.compile d.matchers
  let conditions ← Conditions.compile d.conditions matchers limit
  let ids := d.metrics.map (·.id)
  if let some id := Definition.firstRepeated? [] ids then throw (.duplicateMetric id)
  checkAlerts ids [] d.alerts
  let metrics ← d.metrics.mapM fun m =>
    Metric.compile m (d.alerts.filter (·.metric = m.id)) matchers conditions limit
  return { matchers, conditions, metrics }

end EventMetrics
