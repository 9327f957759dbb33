import EventMetrics.Engine

namespace EventMetrics

structure MetricHealth where
  metric : String
  active : Bool
  turnover : Turnover
  drops : DropCounts
  deriving DecidableEq, Repr

structure Health where
  processed : Nat
  drops : DropCounts
  metrics : List MetricHealth
  deriving DecidableEq, Repr

def Engine.health (e : Engine) : Health where
  processed := e.processed
  drops := e.drops
  metrics := e.metrics.map fun m =>
    { metric := m.plan.id, active := m.active, turnover := m.turnover, drops := m.drops }

namespace Health

def totalDrops (h : Health) : DropCounts := h.metrics.foldl (fun c m => c.merge m.drops) h.drops

end Health

end EventMetrics
