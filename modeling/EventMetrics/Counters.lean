import EventMetrics.Record
import EventMetrics.Drop

namespace EventMetrics

structure LabelCounts (ι : Type) where
  counts : List (ι × UInt64)
  deriving DecidableEq, Repr

namespace LabelCounts

variable {ι : Type} [DecidableEq ι]

def zero (labels : List ι) : LabelCounts ι := ⟨labels.map (·, 0)⟩

/-- A label without a counter is ignored. -/
def add (c : LabelCounts ι) (label : ι) (n : UInt64) : LabelCounts ι :=
  ⟨c.counts.map fun e => if e.1 = label then (e.1, e.2 + n) else e⟩

def get (c : LabelCounts ι) (label : ι) : UInt64 :=
  ((c.counts.find? (·.1 = label)).map (·.2)).getD 0

def total (c : LabelCounts ι) : UInt64 := (c.counts.map (·.2)).foldl (· + ·) 0

end LabelCounts

structure MetricCounters where
  emitted : LabelCounts Record.Kind := .zero [.alert, .bucket, .event, .skipped]
  dropped : LabelCounts DropReason := .zero DropReason.all
  lost : UInt64 := 0

structure Counters where
  ingested : UInt64 := 0
  rejected : UInt64 := 0
  ticks : UInt64 := 0
  metrics : Table String MetricCounters := .empty
  writes : UInt64 := 0
  writesFailed : UInt64 := 0
  retries : UInt64 := 0
  unwritable : UInt64 := 0

namespace Counters

def ofMetrics (ids : List String) : Counters where
  metrics := Table.ofList (ids.map (·, {}))

def update (c : Counters) (metric : String) (f : MetricCounters → MetricCounters) : Counters :=
  { c with metrics := c.metrics.mapValues fun id m => if id = metric then f m else m }

def countIngested (c : Counters) : Counters := { c with ingested := c.ingested + 1 }

def countRejected (c : Counters) : Counters := { c with rejected := c.rejected + 1 }

def countTick (c : Counters) : Counters := { c with ticks := c.ticks + 1 }

def countEmitted (c : Counters) (r : Record) : Counters :=
  c.update r.metric fun m => { m with emitted := m.emitted.add r.kind 1 }

def countDropped (c : Counters) (metric : String) (reason : DropReason) (n : UInt64) : Counters :=
  c.update metric fun m => { m with dropped := m.dropped.add reason n }

def countLost (c : Counters) (metric : String) : Counters :=
  c.update metric fun m => { m with lost := m.lost + 1 }

def countWrite (c : Counters) : Counters := { c with writes := c.writes + 1 }

def countWriteFailed (c : Counters) : Counters := { c with writesFailed := c.writesFailed + 1 }

def countRetry (c : Counters) : Counters := { c with retries := c.retries + 1 }

def countUnwritable (c : Counters) : Counters := { c with unwritable := c.unwritable + 1 }

def emitted (c : Counters) (metric : String) (kind : Record.Kind) : UInt64 :=
  ((c.metrics.get? metric).map (·.emitted.get kind)).getD 0

def sumOver (c : Counters) (f : MetricCounters → UInt64) : UInt64 :=
  (c.metrics.entries.map fun e => f e.2).foldl (· + ·) 0

def lost (c : Counters) : UInt64 := c.sumOver (·.lost)

def summary (c : Counters) : String :=
  s!"events={c.ingested} ticks={c.ticks} records={c.sumOver (·.emitted.total)} " ++
  s!"samples_dropped={c.sumOver (·.dropped.total)} flush_dropped={c.lost} " ++
  s!"sink_failed={c.writesFailed} sink_retries={c.retries}"

end Counters

end EventMetrics
