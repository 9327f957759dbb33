import EventMetrics.Counters

namespace EventMetrics

namespace Exposition

structure Sample where
  labels : List (String × String)
  value : UInt64
  deriving DecidableEq, Repr

structure Family where
  name : String
  samples : List Sample
  deriving DecidableEq, Repr

def escapeChar : Char → List Char
  | '\\' => ['\\', '\\']
  | '"' => ['\\', '"']
  | '\n' => ['\\', 'n']
  | c => [c]

def escape (s : String) : String := String.ofList (s.toList.flatMap escapeChar)

def renderLabel (label : String × String) : String :=
  label.1 ++ "=\"" ++ escape label.2 ++ "\""

def renderLabels (labels : List (String × String)) : String :=
  if labels.isEmpty then "" else "\x7b" ++ ",".intercalate (labels.map renderLabel) ++ "\x7d"

def Sample.line (family : String) (s : Sample) : String :=
  family ++ renderLabels s.labels ++ " " ++ toString s.value

def Family.typeLine (f : Family) : String := "# TYPE " ++ f.name ++ " counter"

def Family.lines (f : Family) : List String :=
  if f.samples.isEmpty then [] else f.typeLine :: f.samples.map (·.line f.name)

def render (families : List Family) : String :=
  String.join ((families.flatMap Family.lines).map (· ++ "\n"))

end Exposition

namespace Counters

open Exposition

def single (name : String) (value : UInt64) : Family := ⟨name, [⟨[], value⟩]⟩

def perMetric (c : Counters) (name : String)
    (samples : MetricCounters → List (List (String × String) × UInt64)) : Family :=
  ⟨name, c.metrics.entries.flatMap fun e =>
    (samples e.2).map fun s => ⟨("metric", e.1) :: s.1, s.2⟩⟩

def families (c : Counters) : List Family := [
  single "tally_events_ingested_total" c.ingested,
  single "tally_events_rejected_total" c.rejected,
  single "tally_ticks_total" c.ticks,
  c.perMetric "tally_records_emitted_total" fun m =>
    m.emitted.counts.map fun e => ([("kind", e.1.name)], e.2),
  c.perMetric "tally_samples_dropped_total" fun m =>
    m.dropped.counts.map fun e => ([("reason", e.1.name)], e.2),
  c.perMetric "tally_flush_dropped_total" fun m => [([], m.lost)],
  single "tally_sink_writes_total" c.writes,
  single "tally_sink_write_failed_total" c.writesFailed,
  single "tally_sink_retries_total" c.retries,
  single "tally_serialize_failed_total" c.unwritable]

def exposition (c : Counters) : String := Exposition.render c.families

end Counters

end EventMetrics
