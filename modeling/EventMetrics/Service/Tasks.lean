import EventMetrics.Service

namespace EventMetrics

namespace Pipeline

def Input.isFinish : Input → Bool
  | .finish _ => true
  | .event _ | .tick _ => false

def Input.isTick : Input → Bool
  | .tick _ => true
  | .event _ | .finish _ => false

def Input.InRange : Input → Prop
  | .event e => Instant.InRange e.time
  | .tick now => Instant.InRange now
  | .finish time => ∀ now, time = some now → Instant.InRange now

/-- What a pipeline comes to, and what it emits, with one input after another up to the end. -/
def drive (p : Pipeline) : List Input → Option (Pipeline × List Record)
  | [] => some (p, [])
  | x :: xs => do
    let t ← p.step x
    if x.isFinish then return (t.pipeline, t.records)
    let (q, records) ← t.pipeline.drive xs
    return (q, t.records ++ records)

end Pipeline

structure Task where
  pipeline : Pipeline
  inbox : List Pipeline.Input := []
  /-- What is still to be handed over of the records that the last input left. -/
  leaving : List Record := []
  /-- Nothing is taken after the end. -/
  isEnding : Bool := false
  /-- Clients send nothing after the end; the clock may. -/
  isOpen : Bool := true

def Task.isDone (t : Task) : Bool := t.isEnding && t.leaving.isEmpty

structure Tasks where
  tasks : List Task
  /-- How many inputs wait for a metric, and how many records for the output. -/
  inputRoom : Nat
  outputRoom : Nat
  counters : Counters
  queue : List Record := []
  isOver : Bool := false

/-- What a step of some task does, the place of the task among the metrics first. -/
inductive Happening
  | sent (i : Nat) (x : Pipeline.Input)
  | taken (i : Nat) (x : Pipeline.Input)
  | handed (i : Nat) (r : Record) (kept : Bool)
  | received (r : Record)
  | ended

namespace Tasks

def ofService (hosting : Hosting) (s : Service) : Tasks where
  tasks := s.pipelines.map fun p => { pipeline := p }
  inputRoom := hosting.inputQueue
  outputRoom := s.room
  counters := s.counters

def hasRoom (s : Tasks) : Bool := !s.isOver && s.queue.length < s.outputRoom

def send (s : Tasks) (i : Nat) (t : Task) (x : Pipeline.Input) : Tasks :=
  { s with tasks := s.tasks.set i { t with
      inbox := t.inbox ++ [x]
      isOpen := t.isOpen && !x.isFinish } }

def take (s : Tasks) (i : Nat) (t : Task) (x : Pipeline.Input) (step : Pipeline.Step) : Tasks :=
  { s with
    tasks := s.tasks.set i { t with
      pipeline := step.pipeline
      inbox := t.inbox.tail
      leaving := step.records
      isEnding := x.isFinish }
    counters := step.dropped.elim s.counters fun r => s.counters.countDropped t.pipeline.metric r 1 }

def hand (s : Tasks) (i : Nat) (t : Task) (r : Record) : Tasks :=
  let counters := s.counters.countEmitted r
  { s with
    tasks := s.tasks.set i { t with leaving := t.leaving.tail }
    queue := if s.hasRoom then s.queue ++ [r] else s.queue
    counters := if s.hasRoom then counters else counters.countLost t.pipeline.metric }

inductive Step (s : Tasks) : Happening → Tasks → Prop
  | send {i : Nat} {t : Task} {x : Pipeline.Input} : s.tasks[i]? = some t → t.isDone = false →
      (t.isOpen || x.isTick) = true → t.inbox.length < s.inputRoom → x.InRange →
      Step s (.sent i x) (s.send i t x)
  | take {i : Nat} {t : Task} {x : Pipeline.Input} {step : Pipeline.Step} : s.tasks[i]? = some t →
      t.isEnding = false → t.leaving = [] → t.inbox.head? = some x → t.pipeline.step x = some step →
      Step s (.taken i x) (s.take i t x step)
  | hand {i : Nat} {t : Task} {r : Record} : s.tasks[i]? = some t → t.leaving.head? = some r →
      Step s (.handed i r s.hasRoom) (s.hand i t r)
  | receive {r : Record} {rest : List Record} : s.isOver = false → s.queue = r :: rest →
      Step s (.received r) { s with queue := rest }
  /-- The output ends once every metric has, with nothing left. -/
  | ended : s.isOver = false → (∀ t ∈ s.tasks, t.isDone = true) → s.queue = [] →
      Step s .ended { s with isOver := true }

inductive Runs (s₀ : Tasks) : List Happening → Tasks → Prop
  | start : Runs s₀ [] s₀
  | step {hs h s s'} : Runs s₀ hs s → Step s h s' → Runs s₀ (hs ++ [h]) s'

def Finished (s : Tasks) : Prop := s.isOver = true ∧ ∀ t ∈ s.tasks, t.isDone = true

end Tasks

end EventMetrics
