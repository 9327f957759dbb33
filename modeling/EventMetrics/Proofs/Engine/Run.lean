import EventMetrics.Proofs.Bounded

namespace EventMetrics

inductive Call
  | process (ev : Event)
  | advanceTo (now : Int)
  | shutdown (now : Int)

namespace Call

def time : Call → Int
  | process ev => ev.time
  | advanceTo now | shutdown now => now

def InRange (c : Call) : Prop := Instant.InRange c.time

instance (c : Call) : Decidable c.InRange := inferInstanceAs (Decidable (Instant.InRange _))

end Call

def EngineOptions.InRange (o : EngineOptions) : Prop := ∀ s, o.start = some s → Instant.InRange s

instance (o : EngineOptions) : Decidable o.InRange := inferInstanceAs (Decidable (∀ s ∈ o.start, Instant.InRange s))

namespace Engine

def call (e : Engine) : Call → Engine
  | .process ev => (e.process ev).1
  | .advanceTo now => e.advanceTo now
  | .shutdown now => e.shutdown now

def run (e : Engine) (calls : List Call) : Engine := calls.foldl call e

theorem run_concat (e : Engine) (calls : List Call) (c : Call) : e.run (calls ++ [c]) = (e.run calls).call c :=
  List.foldl_append

def answers (e : Engine) : List Call → List Ingest
  | [] => []
  | .process ev :: calls => (e.process ev).2 :: answers (e.process ev).1 calls
  | c :: calls => answers (e.call c) calls

/-- What an engine can come to, from its definitions on. -/
inductive Reachable (d : Definitions) (o : EngineOptions) : Engine → Prop
  | compiled {e} : compile d o = .ok e → Reachable d o e
  | call {e} (c : Call) : Reachable d o e → c.InRange → Reachable d o (e.call c)
  | drain {e} : Reachable d o e → Reachable d o e.drain.1

/-- The visits to a room and the time with its door open, by minutes. -/
def doors : Definitions where
  matchers := [⟨"open", .simple 1 []⟩, ⟨"close", .simple 2 []⟩]
  metrics := [
    { id := "visits", measure := .count "open", bucket := some ⟨60000000000⟩ },
    { id := "time", measure := .duration "open" "close" none false .sum, bucket := some ⟨60000000000⟩ }]

end Engine

end EventMetrics
