import EventMetrics.Decimal.Layout
import EventMetrics.Json

namespace EventMetrics

inductive Value
  | int (n : Int)
  | real (x : Float)
  | text (s : String)
  | ordinal (n : Int)

namespace Value

def tag : Value → Char
  | int _ => 'i'
  | real _ => 'f'
  | text _ => 's'
  | ordinal _ => 'e'

def toFloat? : Value → Option Float
  | int n | ordinal n => some (Float.ofInt n)
  | real x => some x
  | text _ => none

def toInt? : Value → Option Int
  | int n | ordinal n => some n
  | real _ | text _ => none

def toText? : Value → Option String
  | text s => some s
  | _ => none

def render : Value → String
  | int n | ordinal n => toString n
  | real x => Decimal.render Decimal.plainStyle x
  | text s => s

def toJson : Value → Json
  | int n | ordinal n => .int n
  | real x => .real x
  | text s => .string s

def compareFloats? (x y : Float) : Option Ordering :=
  match decide (x ≤ y), decide (y ≤ x) with
  | true, true => some .eq
  | true, false => some .lt
  | false, true => some .gt
  | false, false => none

/-- Whole numbers and ordinals compare exactly, anything with a real number as doubles; text is
ordered against nothing. -/
def compare? (a b : Value) : Option Ordering :=
  match a.toInt?, b.toInt? with
  | some m, some n => some (compare m n)
  | _, _ => do
    let x ← a.toFloat?
    compareFloats? x (← b.toFloat?)

def same (a b : Value) : Bool :=
  match a, b with
  | text s, text t => s == t
  | text _, _ | _, text _ => false
  | _, _ => a.compare? b == some .eq

end Value

end EventMetrics
