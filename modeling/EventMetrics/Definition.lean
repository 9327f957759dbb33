import EventMetrics.Logic
import EventMetrics.Span
import EventMetrics.Value

namespace EventMetrics

namespace Definition

inductive Literal
  | int (n : Int)
  | real (x : Float)
  | text (s : String)

def Literal.toValue : Literal → Value
  | int n => .int n
  | real x => .real x
  | text s => .text s

def Literal.render : Literal → String
  | int n => toString n
  | real x => Decimal.render Decimal.plainStyle x
  | text s => Text.quote s

inductive FieldTest
  | eq (v : Literal)
  | lt (v : Literal)
  | gt (v : Literal)
  | lte (v : Literal)
  | gte (v : Literal)
  | oneOf (vs : List Literal)
  | notOneOf (vs : List Literal)
  /-- `*` stands for any text, `?` for one character. -/
  | wildcard (pattern : String)

structure FieldConstraint where
  field : String
  test : FieldTest

inductive MatcherRule
  | simple (atom : Int) (constraints : List FieldConstraint)
  | combination (op : LogicalOp) (children : List String)

structure Matcher where
  id : String
  rule : MatcherRule

/-- What a condition reports for keys that it has not seen. -/
inductive Initial
  | unknown
  | off
  deriving DecidableEq, Repr

def Initial.name : Initial → String
  | unknown => "unknown"
  | off => "false"

def Initial.signal : Initial → Signal
  | unknown => .unknown
  | off => .off

structure SimpleCondition where
  start : String
  stop : String
  stopAll : Option String := none
  /-- Overlapping starts need as many stops. -/
  nested : Bool := false
  /-- Fields that slice the condition into one signal for each key. -/
  dimensions : List String := []
  initial : Initial := .unknown
  maxDimensions : Option Nat := none

inductive ConditionRule
  | simple (c : SimpleCondition)
  | combination (op : LogicalOp) (children : List String)

structure Condition where
  id : String
  rule : ConditionRule

inductive ValueAggregation
  | sum
  | min
  | max
  | avg
  deriving DecidableEq, Repr

def ValueAggregation.name : ValueAggregation → String
  | sum => "sum"
  | min => "min"
  | max => "max"
  | avg => "avg"

/-- `sum` adds what intervals share with a bucket; `maxSparse` takes the longest interval that ended
in it. -/
inductive DurationAggregation
  | sum
  | maxSparse
  deriving DecidableEq, Repr

def DurationAggregation.name : DurationAggregation → String
  | sum => "sum"
  | maxSparse => "max_sparse"

inductive Measure
  | value (what field : String) (aggregation : ValueAggregation)
  | count (what : String)
  | duration (start stop : String) (stopAll : Option String) (nested : Bool)
      (aggregation : DurationAggregation)
  /-- Qualifying events are passed on as they arrive. -/
  | event (what : String)

def Measure.name : Measure → String
  | value .. => "value"
  | count .. => "count"
  | duration .. => "duration"
  | event .. => "event"

def Measure.isBucketed : Measure → Bool
  | event .. => false
  | _ => true

/-- Pairs a field of a metric's events with a dimension of its condition. -/
structure Link where
  what : String
  condition : String
  deriving DecidableEq, Repr

structure Activation where
  matcher : String
  ttl : Span
  deactivate : Option String := none

structure Metric where
  id : String
  measure : Measure
  bucket : Option Span := none
  condition : Option String := none
  links : List Link := []
  dimensions : List String := []
  activations : List Activation := []
  maxDimensions : Option Nat := none

structure Alert where
  id : String
  metric : String
  numBuckets : Nat
  threshold : Float
  refractory : Option Span := none

end Definition

structure Definitions where
  matchers : List Definition.Matcher := []
  conditions : List Definition.Condition := []
  metrics : List Definition.Metric := []
  alerts : List Definition.Alert := []

namespace Definitions

def isEmpty (d : Definitions) : Bool := d.metrics.isEmpty

def merge (a b : Definitions) : Definitions where
  matchers := a.matchers ++ b.matchers
  conditions := a.conditions ++ b.conditions
  metrics := a.metrics ++ b.metrics
  alerts := a.alerts ++ b.alerts

/-- One metric with its alerts; matchers and conditions stay whole. -/
def forMetric? (d : Definitions) (id : String) : Option Definitions :=
  (d.metrics.find? (·.id = id)).map fun m =>
    { d with metrics := [m], alerts := d.alerts.filter (·.metric = id) }

end Definitions

end EventMetrics
