import EventMetrics.Config
import EventMetrics.Counters
import EventMetrics.Engine.Checked

namespace EventMetrics

structure Pipeline where
  metric : String
  engine : Engine

namespace Pipeline

inductive Input
  | event (e : Event)
  | tick (now : Int)
  /-- The end, at an instant or else where the engine is. -/
  | finish (time : Option Int)

structure Step where
  pipeline : Pipeline
  dropped : Option DropReason := none
  records : List Record := []

def forward (p : Pipeline) (engine : Engine) (dropped : Option DropReason) : Step :=
  let (engine, records) := engine.drain
  { pipeline := { p with engine }, dropped, records }

/-- An engine that never had an input, nor a start, has nothing to finish. Nothing comes of an input on which
the engine never ends or stops by a fault: no other input reaches the pipeline. -/
def step (p : Pipeline) : Input → Option Step
  | .event e => do
    match ← (p.engine.process! e).result? with
    | (engine, .dropped r) => return p.forward engine (some r)
    | (engine, _) => return p.forward engine none
  | .tick now => do return p.forward (← (p.engine.advanceTo! now).result?) none
  | .finish time =>
    match time.or p.engine.watermark with
    | some now => do return p.forward (← (p.engine.shutdown! now).result?) none
    | none => some { pipeline := p }

end Pipeline

structure Service where
  pipelines : List Pipeline
  room : Nat
  isOpen : Bool := true
  counters : Counters
  handed : List Record := []

namespace Service

/-- Compiles everything together, so that all definitions are checked, and then each metric with
what belongs to it. -/
def start (hosting : Hosting) (d : Definitions) : Except Definition.Error Service := do
  let options : EngineOptions :=
    { start := hosting.start, dimensionLimit := hosting.dimensionLimit }
  let _ ← Engine.compile d options
  let pipelines ← d.metrics.mapM fun m => do
    let engine ← Engine.compile ((d.forMetric? m.id).getD {}) options
    return { metric := m.id, engine : Pipeline }
  return { pipelines, room := hosting.outputQueue
           counters := .ofMetrics (d.metrics.map (·.id)) }

/-- Adds to a bounded queue what finds room; the rest is lost. -/
def offer {α : Type} (capacity : Nat) (queue items : List α) : List α × List α :=
  let room := capacity - queue.length
  (queue ++ items.take room, items.drop room)

def countStep (room : Nat) (c : Counters) (s : Pipeline.Step) : Counters :=
  let c := s.dropped.elim c fun r => c.countDropped s.pipeline.metric r 1
  let c := s.records.foldl Counters.countEmitted c
  (offer room [] s.records).2.foldl (fun c _ => c.countLost s.pipeline.metric) c

/-- An input for every pipeline. The output keeps up, so each finds the queue empty. -/
def feed (s : Service) (input : Pipeline.Input) : Option Service := do
  let steps ← s.pipelines.mapM (·.step input)
  return { s with
    pipelines := steps.map (·.pipeline)
    counters := steps.foldl (countStep s.room) s.counters
    handed := s.handed ++ steps.flatMap fun t => (offer s.room [] t.records).1 }

def refusal? (s : Service) : Option Failure :=
  match s.isOpen, s.pipelines with
  | false, p :: _ => some
    { code := 2003, reason := "runtime already closed"
      detail := some s!"pipeline {Text.quote p.metric} is closed" }
  | _, _ => none

def ingest (s : Service) (e : Event) : Option (Service × Option Failure) :=
  match s.refusal? with
  | some f => some ({ s with counters := s.counters.countRejected }, some f)
  | none => do
    let fed ← s.feed (.event e)
    return ({ fed with counters := fed.counters.countIngested }, none)

def tick (s : Service) (now : Int) : Option (Service × Option Failure) :=
  match s.refusal? with
  | some f => some (s, some f)
  | none => do
    let fed ← s.feed (.tick now)
    return ({ fed with counters := fed.counters.countTick }, none)

def shutdown (s : Service) (time : Option Int) : Option Service :=
  if s.isOpen then do return { ← s.feed (.finish time) with isOpen := false } else some s

def knows (s : Service) (metric : String) : Bool := s.pipelines.any (·.metric = metric)

end Service

end EventMetrics
