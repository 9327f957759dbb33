import EventMetrics.Definition
import EventMetrics.Proofs.Graph.Acyclic

namespace EventMetrics

namespace Definition

def Literal.IsNumeric : Literal → Prop
  | .int _ | .real _ => True
  | .text _ => False

def FieldTest.Sound : FieldTest → Prop
  | .lt l | .gt l | .lte l | .gte l => l.IsNumeric
  | .oneOf ls | .notOneOf ls => ls ≠ []
  | .eq _ | .wildcard _ => True

def MatcherRule.children : MatcherRule → List String
  | .simple .. => []
  | .combination _ children => children

def ConditionRule.children : ConditionRule → List String
  | .simple _ => []
  | .combination _ children => children

def ConditionRule.dimensions : ConditionRule → List String
  | .simple c => c.dimensions
  | .combination .. => []

/-- A combination takes at least one operand, exactly one if it is a negation, and all of them exist. -/
def Combines (ids : List String) (op : LogicalOp) (children : List String) : Prop :=
  children ≠ [] ∧ (op = .not → children.length = 1) ∧ ∀ c ∈ children, c ∈ ids

/-- What starts differs from what stops, and all of it exists. -/
def Turns (matchers : List String) (start stop : String) (stopAll : Option String) : Prop :=
  start ≠ stop ∧ start ∈ matchers ∧ stop ∈ matchers ∧ ∀ s ∈ stopAll, s ∈ matchers

def MatcherRule.Sound (matchers : List String) : MatcherRule → Prop
  | .simple _ constraints => ∀ c ∈ constraints, c.test.Sound
  | .combination op children => Combines matchers op children

def ConditionRule.Sound (matchers conditions : List String) : ConditionRule → Prop
  | .simple c => Turns matchers c.start c.stop c.stopAll
  | .combination op children => Combines conditions op children

def Measure.Sound (matchers : List String) : Measure → Prop
  | .value what .. | .count what | .event what => what ∈ matchers
  | .duration start stop stopAll .. => Turns matchers start stop stopAll

/-- Links need a simple condition with dimensions; there are as many, and each dimension has one. -/
def Metric.Linked (conditions : List Condition) (m : Metric) : Prop :=
  m.links ≠ [] → ∃ c ∈ conditions, m.condition = some c.id ∧ ∃ s, c.rule = .simple s ∧
    s.dimensions ≠ [] ∧ m.links.length = s.dimensions.length ∧
    ∀ d ∈ s.dimensions, ∃ l ∈ m.links, l.condition = d

structure Metric.Sound (matchers : List String) (conditions : List Condition) (m : Metric) : Prop where
  measure : m.measure.Sound matchers
  bucket : m.measure.isBucketed = true → ∃ b, m.bucket = some b ∧ 0 < b.nanos
  condition : ∀ c ∈ m.condition, c ∈ conditions.map (·.id)
  links : m.Linked conditions
  activations : ∀ a ∈ m.activations, a.matcher ∈ matchers ∧ ∀ d ∈ a.deactivate, d ∈ matchers

structure Alert.Sound (metrics : List Metric) (a : Alert) : Prop where
  buckets : 1 ≤ a.numBuckets
  metric : ∃ m ∈ metrics, m.id = a.metric ∧ m.measure.isBucketed = true

end Definition

open Relation EventMetrics.Graph in
structure Definitions.Valid (d : Definitions) (limit : Nat) : Prop where
  some_metric : d.metrics ≠ []
  limit_pos : 0 < limit
  matcher_ids : (d.matchers.map (·.id)).Nodup
  condition_ids : (d.conditions.map (·.id)).Nodup
  metric_ids : (d.metrics.map (·.id)).Nodup
  alert_ids : (d.alerts.map (·.id)).Nodup
  matchers : ∀ m ∈ d.matchers, m.rule.Sound (d.matchers.map (·.id))
  no_matcher_cycle : ∀ id, ¬ TransGen (Refers (·.id) (·.rule.children) d.matchers) id id
  conditions : ∀ c ∈ d.conditions, c.rule.Sound (d.matchers.map (·.id)) (d.conditions.map (·.id))
  no_condition_cycle : ∀ id, ¬ TransGen (Refers (·.id) (·.rule.children) d.conditions) id id
  metrics : ∀ m ∈ d.metrics, m.Sound (d.matchers.map (·.id)) d.conditions
  alerts : ∀ a ∈ d.alerts, a.Sound d.metrics

end EventMetrics
