import EventMetrics.Toml.Decoder

namespace EventMetrics

namespace Definition

open Toml (text? flag? intIn? word? number? span? listOf? choice? record? required orDefault optional)

/-- A whole number beyond the signed range reads as a float. -/
def Literal.ofToml? : Toml → Option Literal
  | .int n => if Instant.InRange n then some (.int n) else (number? (.int n)).map .real
  | .float x => some (.real x)
  | .string s => some (.text s)
  | _ => none

def fieldTest? (name : String) : Option (Toml → Option FieldTest) :=
  match name with
  | "eq" => some fun v => (Literal.ofToml? v).map .eq
  | "lt" => some fun v => (Literal.ofToml? v).map .lt
  | "gt" => some fun v => (Literal.ofToml? v).map .gt
  | "lte" => some fun v => (Literal.ofToml? v).map .lte
  | "gte" => some fun v => (Literal.ofToml? v).map .gte
  | "one_of" => some fun v => (listOf? Literal.ofToml? v).map .oneOf
  | "not_one_of" => some fun v => (listOf? Literal.ofToml? v).map .notOneOf
  | "wildcard" => some fun v => (text? v).map .wildcard
  | _ => none

/-- The first entry that names a test gives the test. -/
def firstTest? : List (String × Toml) → Option FieldTest
  | [] => none
  | (name, v) :: rest =>
    match fieldTest? name with
    | some read => read v
    | none => firstTest? rest

def FieldConstraint.ofToml? : Toml → Option FieldConstraint
  | .table entries => do
    let field ← required "field" text? entries
    let test ← firstTest? (entries.filter (·.1 ≠ "field"))
    some { field, test }
  | _ => none

def combination? (entries : List (String × Toml)) : Option (LogicalOp × List String) := do
  let op ← required "op" (choice? .name LogicalOp.name LogicalOp.all) entries
  let children ← required "children" (listOf? text?) entries
  some (op, children)

def atom? : Toml → Option Int := intIn? (-2147483648) 2147483647

def simpleMatcher? (entries : List (String × Toml)) : Option MatcherRule := do
  let atom ← required "atom" atom? entries
  let constraints ← orDefault "where" [] (listOf? FieldConstraint.ofToml?) entries
  some (.simple atom constraints)

def Matcher.ofToml? : Toml → Option Matcher
  | .table entries => do
    let id ← required "id" text? entries
    let rest := entries.filter (·.1 ≠ "id")
    if !Toml.fitWords rest then none
    let rule ← simpleMatcher? rest <|> (combination? rest).map fun (op, cs) => .combination op cs
    some { id, rule }
  | _ => none

def simpleCondition? (entries : List (String × Toml)) : Option SimpleCondition := do
  let start ← required "start" text? entries
  let stop ← required "stop" text? entries
  let stopAll ← optional "stop_all" text? entries
  let nested ← orDefault "nested" false flag? entries
  let dimensions ← orDefault "dimensions" [] (listOf? text?) entries
  let initial ← orDefault "initial" .unknown (choice? .name Initial.name [.unknown, .off]) entries
  let maxDimensions ← optional "max_dimensions" (word? 64) entries
  some { start, stop, stopAll, nested, dimensions, initial, maxDimensions }

def Condition.ofToml? : Toml → Option Condition
  | .table entries => do
    let id ← required "id" text? entries
    let rest := entries.filter (·.1 ≠ "id")
    if !Toml.fitWords rest then none
    let rule ← (simpleCondition? rest).map .simple <|>
      (combination? rest).map fun (op, cs) => .combination op cs
    some { id, rule }
  | _ => none

def Measure.ofEntries? (entries : List (String × Toml)) : Option Measure := do
  match ← required "kind" text? entries with
  | "value" =>
    let what ← required "what" text? entries
    let field ← required "value_field" text? entries
    let aggregation ←
      orDefault "aggregation" .sum
        (choice? .nameOrTable ValueAggregation.name [.sum, .min, .max, .avg]) entries
    some (.value what field aggregation)
  | "count" => some (.count (← required "what" text? entries))
  | "duration" =>
    let start ← required "start" text? entries
    let stop ← required "stop" text? entries
    let stopAll ← optional "stop_all" text? entries
    let nested ← orDefault "nested" false flag? entries
    let aggregation ←
      orDefault "aggregation" .sum
        (choice? .nameOrTable DurationAggregation.name [.sum, .maxSparse]) entries
    some (.duration start stop stopAll nested aggregation)
  | "event" => some (.event (← required "what" text? entries))
  | _ => none

def Link.ofToml? (exact : Bool) (v : Toml) : Option Link := do
  let entries ← record? exact ["what", "condition"] v
  let what ← required "what" text? entries
  let condition ← required "condition" text? entries
  some { what, condition }

def Activation.ofToml? (exact : Bool) (v : Toml) : Option Activation := do
  let entries ← record? exact ["matcher", "ttl", "deactivate"] v
  let matcher ← required "matcher" text? entries
  let ttl ← required "ttl" span? entries
  let deactivate ← optional "deactivate" text? entries
  some { matcher, ttl, deactivate }

def metricFields : List String :=
  ["id", "bucket", "condition", "links", "dimensions", "activation", "max_dimensions"]

def Metric.ofToml? (exact : Bool) : Toml → Option Metric
  | .table entries => do
    let id ← required "id" text? entries
    let bucket ← optional "bucket" span? entries
    let condition ← optional "condition" text? entries
    let links ← orDefault "links" [] (listOf? (Link.ofToml? exact)) entries
    let dimensions ← orDefault "dimensions" [] (listOf? text?) entries
    let activations ← orDefault "activation" [] (listOf? (Activation.ofToml? exact)) entries
    let maxDimensions ← optional "max_dimensions" (word? 64) entries
    let rest := entries.filter (·.1 ∉ metricFields)
    if !Toml.fitWords rest then none
    let measure ← Measure.ofEntries? rest
    some { id, measure, bucket, condition, links, dimensions, activations, maxDimensions }
  | _ => none

def Alert.ofToml? (exact : Bool) (v : Toml) : Option Alert := do
  let entries ←
    record? exact ["id", "metric", "num_buckets", "trigger_if_sum_gt", "refractory_period"] v
  let id ← required "id" text? entries
  let metric ← required "metric" text? entries
  let numBuckets ← required "num_buckets" (word? 64) entries
  let threshold ← required "trigger_if_sum_gt" number? entries
  let refractory ← optional "refractory_period" span? entries
  some { id, metric, numBuckets, threshold, refractory }

end Definition

def Definitions.sections : List String := ["matcher", "condition", "metric", "alert"]

def Definitions.ofEntries? (exact : Bool) (entries : List (String × Toml)) : Option Definitions := do
  if !Toml.readable (entries.filter (·.1 ∉ Definitions.sections)) then none
  let matchers ← Toml.orDefault "matcher" [] (Toml.listOf? Definition.Matcher.ofToml?) entries
  let conditions ← Toml.orDefault "condition" [] (Toml.listOf? Definition.Condition.ofToml?) entries
  let metrics ← Toml.orDefault "metric" [] (Toml.listOf? (Definition.Metric.ofToml? exact)) entries
  let alerts ← Toml.orDefault "alert" [] (Toml.listOf? (Definition.Alert.ofToml? exact)) entries
  some { matchers, conditions, metrics, alerts }

def Definitions.ofDocument? : List (String × Toml) → Option Definitions :=
  Definitions.ofEntries? false

def Definitions.read? (text : String) : Option Definitions :=
  Toml.read? text >>= Definitions.ofDocument?

end EventMetrics
