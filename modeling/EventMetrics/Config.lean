import EventMetrics.Definition
import EventMetrics.Path
import EventMetrics.Table

namespace EventMetrics

structure Retry where
  /-- Attempts for a record, the first included. -/
  attempts : Nat := 3
  initialBackoff : Span := ⟨10000000⟩
  maxBackoff : Span := ⟨1000000000⟩
  deriving DecidableEq, Repr

structure Hosting where
  inputQueue : Nat := 1024
  outputQueue : Nat := 256
  dimensionLimit : Nat := 800
  start : Option Int := none
  tickInterval : Span := ⟨1000000000⟩
  retry : Retry := {}
  deriving DecidableEq, Repr

inductive LogFormat
  | plain
  | json
  deriving DecidableEq, Repr

def LogFormat.name : LogFormat → String
  | plain => "plain"
  | json => "json"

structure Logging where
  level : String := "info"
  modules : Table String String := .empty
  file : Option Path := none
  format : LogFormat := .plain

structure Config where
  hosting : Hosting := {}
  logging : Logging := {}
  sinks : List String := ["stdout://"]
  definitions : Definitions := {}
  /-- Files whose definitions were merged in, in that order. -/
  included : List Path := []

end EventMetrics
