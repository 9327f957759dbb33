import EventMetrics.Config

namespace EventMetrics

/-- A place for lines. Whether it takes one may depend on all that it was sent before. -/
structure Sink where
  /-- Given what was sent before, the latest first, and the line. -/
  takes : List String → String → Bool
  /-- The latest first. -/
  sent : List String := []

def Sink.send (s : Sink) (line : String) : Sink × Bool :=
  ({ s with sent := line :: s.sent }, s.takes s.sent line)

structure Delivery where
  sink : Sink
  taken : Bool
  waits : List Span := []

namespace Delivery

def nextBackoff (most current : Span) : Span := ⟨min (2 * current.nanos) most.nanos⟩

/-- Sends once, and then up to `more` times while the sink refuses. -/
def attempt (most : Span) (line : String) : Nat → Span → Sink → Delivery
  | 0, _, s =>
    let (after, taken) := s.send line
    { sink := after, taken }
  | more + 1, backoff, s =>
    let (after, taken) := s.send line
    if taken then { sink := after, taken }
    else
      let rest := attempt most line more (nextBackoff most backoff) after
      { rest with waits := backoff :: rest.waits }

def deliver (r : Retry) (line : String) (s : Sink) : Delivery :=
  attempt r.maxBackoff line (r.attempts - 1) r.initialBackoff s

/-- Every line goes to every sink before the next line. -/
def dispatch (r : Retry) : List Sink → List String → List (List Delivery)
  | _, [] => []
  | sinks, line :: rest =>
    let row := sinks.map (deliver r line)
    row :: dispatch r (row.map (·.sink)) rest

def retries (d : Delivery) : Nat := d.waits.length

def failedSends (d : Delivery) : Nat := d.retries + if d.taken then 0 else 1

end Delivery

end EventMetrics
