import EventMetrics.Definition
import EventMetrics.Drop
import EventMetrics.Instant
import EventMetrics.Record

namespace EventMetrics

inductive Quantity
  | whole (n : Int)
  | real (x : Float)

namespace Quantity

def ofValue? : Value → Option Quantity
  | .int n | .ordinal n => some (whole n)
  | .real x => some (real x)
  | .text _ => none

def toFloat : Quantity → Float
  | whole n => Float.ofInt n
  | real x => x

def toBucketValue : Quantity → BucketValue
  | whole n => .whole n
  | real x => .real x

def add : Quantity → Quantity → Quantity
  | whole m, whole n =>
    if Instant.InRange (m + n) then whole (m + n) else real (Float.ofInt m + Float.ofInt n)
  | a, b => real (a.toFloat + b.toFloat)

def lt : Quantity → Quantity → Bool
  | whole m, whole n => m < n
  | a, b => a.toFloat < b.toFloat

/-- The first of two that are equal or not comparable. -/
def min (a b : Quantity) : Quantity := if b.lt a then b else a

def max (a b : Quantity) : Quantity := if a.lt b then b else a

end Quantity

structure Accumulator where
  sum : Quantity
  least : Quantity
  greatest : Quantity
  count : Nat

namespace Accumulator

def ofFirst (q : Quantity) : Accumulator := ⟨q, q, q, 1⟩

def push (a : Accumulator) (q : Quantity) : Accumulator :=
  ⟨a.sum.add q, a.least.min q, a.greatest.max q, a.count + 1⟩

end Accumulator

/-- How an event becomes a sample, and samples a value. -/
inductive Reading
  | count
  | field (path : String) (aggregation : Definition.ValueAggregation)

namespace Reading

def sample (r : Reading) (e : Event) : Except DropReason Quantity :=
  match r with
  | count => .ok (.whole 1)
  | field path _ =>
    match e.field? path with
    | none => .error .missingField
    | some v =>
      match Quantity.ofValue? v with
      | none => .error .unparseableValue
      | some q => .ok q

def result (r : Reading) (a : Accumulator) : BucketValue :=
  match r with
  | count => .whole a.count
  | field _ .sum => a.sum.toBucketValue
  | field _ .min => a.least.toBucketValue
  | field _ .max => a.greatest.toBucketValue
  | field _ .avg => .real (a.sum.toFloat / Float.ofNat a.count)

end Reading

/-- A key with its value and the number of samples behind it. -/
structure Row where
  key : DimensionKey
  value : BucketValue
  samples : Nat

abbrev Accumulators := Table DimensionKey Accumulator

namespace Accumulators

def add (as : Accumulators) (limit : Nat) (k : DimensionKey) (q : Quantity) :
    Except DropReason Accumulators :=
  match as.get? k with
  | some a => .ok (as.insert k (a.push q))
  | none => if limit ≤ as.size then .error .dimensionLimit else .ok (as.insert k (.ofFirst q))

def rows (as : Accumulators) (r : Reading) : List Row :=
  as.entries.map fun e => ⟨e.1, r.result e.2, e.2.count⟩

end Accumulators

end EventMetrics
