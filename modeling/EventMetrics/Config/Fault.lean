import EventMetrics.Config
import EventMetrics.Destination

namespace EventMetrics

namespace Config

inductive Fault
  | noInputQueue
  | noOutputQueue
  | noDimensionLimit
  | noTickInterval
  | noAttempts
  | backoffExceeds (initial most : Span)
  | noSinks
  | badSink (index : Nat) (e : Destination.ReadError)
  | noMetrics
  | conditionKeepsNothing (condition : String)
  | bucketMissing (metric : String)
  | bucketEmpty (metric : String)
  | bucketUnwanted (metric : String)
  | metricKeepsNothing (metric : String)
  | valueFieldEmpty (metric : String)
  | linksWithoutCondition (metric : String)
  | activationEmpty (metric : String) (index : Nat)
  | alertWithoutBuckets (alert : String)
  | alertUnbucketed (alert metric : String)
  | thresholdInfinite (alert : String)

open Text in
def Fault.message : Fault → String
  | noInputQueue => "runtime.pipeline_queue must be > 0"
  | noOutputQueue => "runtime.output_queue must be > 0"
  | noDimensionLimit => "runtime.dimension_hard_limit must be > 0"
  | noTickInterval => "runtime.tick_interval must be > 0"
  | noAttempts => "runtime.sink_retry.max_attempts must be >= 1"
  | backoffExceeds initial most =>
    s!"runtime.sink_retry.initial_backoff ({initial.render}) exceeds max_backoff ({most.render})"
  | noSinks => "output.sinks must contain at least one sink URI"
  | badSink i e => s!"output.sinks[{i}]: {e.message}"
  | noMetrics => "no [[metric]] definitions (inline or included)"
  | conditionKeepsNothing c => s!"condition {quote c}: max_dimensions must be > 0"
  | bucketMissing m => s!"metric {quote m}: bucket is required"
  | bucketEmpty m => s!"metric {quote m}: bucket must be > 0"
  | bucketUnwanted m => s!"metric {quote m}: event metrics take no bucket"
  | metricKeepsNothing m => s!"metric {quote m}: max_dimensions must be > 0"
  | valueFieldEmpty m => s!"metric {quote m}: value_field must not be empty"
  | linksWithoutCondition m => s!"metric {quote m}: links given without a condition"
  | activationEmpty m i => s!"metric {quote m}: activation[{i}].ttl must be > 0"
  | alertWithoutBuckets a => s!"alert {quote a}: num_buckets must be >= 1"
  | alertUnbucketed a m => s!"alert {quote a}: metric {quote m} is not bucketed"
  | thresholdInfinite a => s!"alert {quote a}: trigger_if_sum_gt must be finite"

def faultIf (test : Bool) (f : Fault) : Option Fault := if test then some f else none

def faultsAt {α : Type} (f : Nat → α → List Fault) (items : List α) : List Fault :=
  ((List.range items.length).zip items).flatMap fun (i, a) => f i a

def hostingFaults (h : Hosting) : List Fault :=
  [faultIf (h.inputQueue == 0) .noInputQueue, faultIf (h.outputQueue == 0) .noOutputQueue,
    faultIf (h.dimensionLimit == 0) .noDimensionLimit, faultIf h.tickInterval.isZero .noTickInterval,
    faultIf (h.retry.attempts == 0) .noAttempts,
    faultIf (h.retry.maxBackoff.nanos < h.retry.initialBackoff.nanos)
      (.backoffExceeds h.retry.initialBackoff h.retry.maxBackoff)].filterMap id

def sinkFaults (i : Nat) (uri : String) : List Fault :=
  match Destination.read uri with
  | .ok _ => []
  | .error e => [.badSink i e]

def conditionFault? (c : Definition.Condition) : Option Fault :=
  match c.rule with
  | .simple s => faultIf (s.maxDimensions == some 0) (.conditionKeepsNothing c.id)
  | .combination .. => none

def bucketFault? (m : Definition.Metric) : Option Fault :=
  match m.measure.isBucketed, m.bucket with
  | true, none => some (.bucketMissing m.id)
  | true, some size => faultIf size.isZero (.bucketEmpty m.id)
  | false, some _ => some (.bucketUnwanted m.id)
  | false, none => none

def valueFieldFault? (m : Definition.Metric) : Option Fault :=
  match m.measure with
  | .value _ field _ => faultIf field.isEmpty (.valueFieldEmpty m.id)
  | _ => none

def metricFaults (m : Definition.Metric) : List Fault :=
  [bucketFault? m, faultIf (m.maxDimensions == some 0) (.metricKeepsNothing m.id),
    valueFieldFault? m,
    faultIf (!m.links.isEmpty && m.condition.isNone) (.linksWithoutCondition m.id)].filterMap id ++
  faultsAt (fun i (a : Definition.Activation) =>
    (faultIf a.ttl.isZero (.activationEmpty m.id i)).toList) m.activations

def alertFaults (metrics : List Definition.Metric) (a : Definition.Alert) : List Fault :=
  let unbucketed := metrics.any fun m => m.id = a.metric && !m.measure.isBucketed
  [faultIf (a.numBuckets == 0) (.alertWithoutBuckets a.id),
    faultIf unbucketed (.alertUnbucketed a.id a.metric),
    faultIf (!a.threshold.isFinite) (.thresholdInfinite a.id)].filterMap id

def faults (c : Config) : List Fault :=
  hostingFaults c.hosting ++
  (faultIf c.sinks.isEmpty .noSinks).toList ++ faultsAt sinkFaults c.sinks ++
  (faultIf c.definitions.metrics.isEmpty .noMetrics).toList ++
  c.definitions.conditions.filterMap conditionFault? ++
  c.definitions.metrics.flatMap metricFaults ++
  c.definitions.alerts.flatMap (alertFaults c.definitions.metrics)

end Config

end EventMetrics
