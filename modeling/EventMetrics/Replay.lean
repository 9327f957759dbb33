import EventMetrics.Engine.Checked
import EventMetrics.Engine.Health
import EventMetrics.Event.Decoder

namespace EventMetrics

structure Replay where
  engine : Engine
  events : Nat := 0
  accepted : Nat := 0
  dropped : DropCounts := {}
  undecodable : List (Nat × Event.DecodeError) := []
  records : List Record := []

namespace Replay

def count (r : Replay) : Ingest → Replay
  | .accepted => { r with accepted := r.accepted + 1 }
  | .dropped reason => { r with dropped := r.dropped.record reason }
  | .closed => r

def line (r : Replay) : Nat × Except Event.DecodeError Event → Checked Replay
  | (number, .error e) => pure { r with undecodable := r.undecodable ++ [(number, e)] }
  | (_, .ok ev) => do
    let (engine, outcome) ← r.engine.process! ev
    return { r with engine, events := r.events + 1 }.count outcome

/-- The end comes at `time`, or else at the last instant reached. -/
def finish (r : Replay) (time : Option Int) : Checked Replay := do
  let closed ← match time.or r.engine.watermark with
    | some now => r.engine.shutdown! now
    | none => pure r.engine
  let (engine, records) := closed.drain
  return { r with engine, records }

def run (e : Engine) (text : String) (time : Option Int) : Checked Replay := do
  (← (Event.decodeLines text).foldlM line { engine := e }).finish time

end Replay

end EventMetrics
