import EventMetrics.Instant
import EventMetrics.Text.Classes
import EventMetrics.Text.Quoted

namespace EventMetrics

inductive TimeUnit
  | day
  | hour
  | minute
  | second
  | millisecond
  | microsecond
  | nanosecond
  deriving DecidableEq, Repr

namespace TimeUnit

/-- From the greatest to the least; each divides the one before it. -/
def all : List TimeUnit := [day, hour, minute, second, millisecond, microsecond, nanosecond]

def suffix : TimeUnit → String
  | day => "d"
  | hour => "h"
  | minute => "m"
  | second => "s"
  | millisecond => "ms"
  | microsecond => "us"
  | nanosecond => "ns"

def nanos : TimeUnit → Nat
  | day => 86400000000000
  | hour => 3600000000000
  | minute => 60000000000
  | second => 1000000000
  | millisecond => 1000000
  | microsecond => 1000
  | nanosecond => 1

def ofSuffix? (s : String) : Option TimeUnit := all.find? (·.suffix = s)

end TimeUnit

structure Span where
  nanos : Nat
  deriving DecidableEq, Repr

namespace Span

inductive ReadError
  | empty
  | noSuffix (text : String)
  | noNumber (text : String)
  | badNumber (text : String)
  | unknownSuffix (suffix text : String)
  | overflow (text : String)
  deriving DecidableEq, Repr

open Text in
def ReadError.message : ReadError → String
  | empty => "empty duration string"
  | noSuffix s => s!"missing suffix in {quote s}"
  | noNumber s => s!"missing numeric part in {quote s}"
  | badNumber s => s!"invalid number in duration: {quote s}"
  | unknownSuffix u s =>
    s!"unsupported duration suffix {quote u} in {quote s} (expected ns/us/ms/s/m/h/d)"
  | overflow s => s!"duration overflow: {quote s}"

open Text in
/-- Blanks around the text are ignored; between the number and its unit there is none. The number
and the length in nanoseconds fit in a word. -/
def read (s : String) : Except ReadError Span :=
  let chars := trimList s.toList
  let text := String.ofList chars
  let digits := chars.takeWhile Char.isDigit
  let rest := chars.dropWhile Char.isDigit
  if chars.isEmpty then .error .empty
  else if rest.isEmpty then .error (.noSuffix text)
  else if digits.isEmpty then .error (.noNumber text)
  else if wordLimit ≤ decimalValue digits then .error (.badNumber text)
  else
    match TimeUnit.ofSuffix? (String.ofList rest) with
    | none => .error (.unknownSuffix (String.ofList rest) text)
    | some unit =>
      let nanos := decimalValue digits * unit.nanos
      if wordLimit ≤ nanos then .error (.overflow text) else .ok ⟨nanos⟩

def unit (d : Span) : TimeUnit :=
  (TimeUnit.all.find? (fun u => d.nanos % u.nanos = 0)).getD .nanosecond

def render (d : Span) : String :=
  if d.nanos = 0 then "0s" else toString (d.nanos / d.unit.nanos) ++ d.unit.suffix

/-- The length as a signed word, or the greatest one. -/
def toInstant (d : Span) : Int := Instant.clamp d.nanos

def isZero (d : Span) : Bool := d.nanos == 0

def ofSecondsNanos (seconds nanos : Nat) : Span := ⟨seconds * 1000000000 + nanos⟩

end Span

end EventMetrics
