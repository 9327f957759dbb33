import EventMetrics.Metric.Quantity

namespace EventMetrics

open Definition (DurationAggregation)

structure Interval where
  /-- How many starts are open: a 32-bit word, to which `startFits` sees. -/
  nesting : Nat
  /-- Since when time runs, if it does. -/
  since : Option Int
  /-- The key at which the metric's condition is asked. -/
  link : Option DimensionKey
  /-- Time gathered by sparse maxima. -/
  lifetime : Int := 0

structure Total where
  nanos : Int := 0
  segments : Nat := 0
  deriving DecidableEq, Repr

/-- Open intervals and the time they gathered. Sums cut running intervals at the ends of buckets; sparse
maxima credit an interval as a whole to the bucket in which it ends. -/
structure Intervals where
  opened : Table DimensionKey Interval := .empty
  totals : Table DimensionKey Total := .empty

namespace Intervals

abbrev Totals := Table DimensionKey Total

def addSegment (ts : Totals) (k : DimensionKey) (nanos : Int) : Totals :=
  if nanos ≤ 0 then ts
  else
    let t := (ts.get? k).getD {}
    ts.insert k ⟨t.nanos + nanos, t.segments + 1⟩

def addEnded (ts : Totals) (k : DimensionKey) (lifetime : Int) : Totals :=
  if lifetime ≤ 0 then ts
  else
    let t := (ts.get? k).getD {}
    ts.insert k ⟨max t.nanos lifetime, t.segments + 1⟩

/-- Cuts a running interval at `time`, from where it runs on or rests: the interval and the time to
credit to its key. -/
def cut (agg : DurationAggregation) (time : Int) (next : Option Int) (iv : Interval) :
    Interval × Int :=
  let nanos := match iv.since with
    | some s => max (time - s) 0
    | none => 0
  match agg with
  | .sum => ({ iv with since := next }, nanos)
  | .maxSparse => ({ iv with since := next, lifetime := iv.lifetime + nanos }, 0)

def cutFits (ts : Totals) (agg : DurationAggregation) (time : Int) (k : DimensionKey) (iv : Interval) : Bool :=
  match iv.since with
  | none => true
  | some s =>
    Instant.InRange (time - s) &&
      (time ≤ s ||
        match agg with
        | .sum => Instant.InRange (((ts.get? k).getD {}).nanos + (time - s))
        | .maxSparse => Instant.InRange (iv.lifetime + (time - s)))

/-- The same for a cut of all intervals but those whose gate is open. Keys are distinct, so that no cut
changes the total of another one. -/
def cutsFit (is : Intervals) (agg : DurationAggregation) (time : Int)
    (gate : Option DimensionKey → Bool) : Bool :=
  is.opened.entries.all fun e => gate e.2.link || cutFits is.totals agg time e.1 e.2

def sweep (is : Intervals) (f : DimensionKey → Interval → Interval × Int) : Intervals where
  opened := is.opened.mapValues fun k iv => (f k iv).1
  totals := is.opened.entries.foldl (fun ts e => addSegment ts e.1 (f e.1 e.2).2) is.totals

def regateOne (agg : DurationAggregation) (time : Int) (isOpen : Bool) (iv : Interval) :
    Interval × Int :=
  match isOpen, iv.since with
  | true, none => ({ iv with since := some time }, 0)
  | false, some _ => cut agg time none iv
  | _, _ => (iv, 0)

def regate (is : Intervals) (agg : DurationAggregation) (time : Int)
    (gate : Option DimensionKey → Bool) : Intervals :=
  is.sweep fun _ iv => regateOne agg time (gate iv.link) iv

def accrueTo (is : Intervals) (agg : DurationAggregation) (time : Int) : Intervals :=
  is.sweep fun _ iv =>
    match iv.since with
    | some _ => cut agg time (some time) iv
    | none => (iv, 0)

def endOne (agg : DurationAggregation) (time : Int) (ts : Totals) (k : DimensionKey)
    (iv : Interval) : Totals :=
  let (iv, nanos) := cut agg time none iv
  let ts := addSegment ts k nanos
  match agg with
  | .sum => ts
  | .maxSparse => addEnded ts k iv.lifetime

/-- A new key needs room; a key that is open nests or stays as it is. -/
def start (is : Intervals) (nested : Bool) (limit : Nat) (time : Int) (isOpen : Bool)
    (k : DimensionKey) (link : Option DimensionKey) : Except DropReason Intervals :=
  match is.opened.get? k with
  | some iv =>
    let nesting := if nested then iv.nesting + 1 else 1
    let since := if isOpen ∧ iv.since.isNone then some time else iv.since
    .ok { is with opened := is.opened.insert k { iv with nesting, since } }
  | none =>
    if limit ≤ is.opened.size then .error .dimensionLimit
    else
      let since := if isOpen then some time else none
      .ok { is with opened := is.opened.insert k { nesting := 1, since, link } }

def startFits (is : Intervals) (nested : Bool) (k : DimensionKey) : Bool :=
  match is.opened.get? k with
  | some iv => !nested || iv.nesting + 1 < 4294967296
  | none => true

def stop (is : Intervals) (agg : DurationAggregation) (nested : Bool) (time : Int)
    (k : DimensionKey) : Intervals :=
  match is.opened.get? k with
  | none => is
  | some iv =>
    let nesting := if nested then iv.nesting - 1 else 0
    if 0 < nesting then { is with opened := is.opened.insert k { iv with nesting } }
    else { opened := is.opened.erase k, totals := endOne agg time is.totals k iv }

def stopFits (is : Intervals) (agg : DurationAggregation) (nested : Bool) (time : Int)
    (k : DimensionKey) : Bool :=
  match is.opened.get? k with
  | none => true
  | some iv => (nested && 1 < iv.nesting) || cutFits is.totals agg time k iv

def stopAll (is : Intervals) (agg : DurationAggregation) (time : Int) : Intervals where
  opened := .empty
  totals := is.opened.entries.foldl (fun ts e => endOne agg time ts e.1 e.2) is.totals

/-- The last cut: open intervals count as ending at `time`, though they stay. -/
def settle (is : Intervals) (agg : DurationAggregation) (time : Int) : Intervals :=
  let cut := is.accrueTo agg time
  match agg with
  | .sum => cut
  | .maxSparse =>
    { cut with
      totals := cut.opened.entries.foldl (fun ts e => addEnded ts e.1 e.2.lifetime) cut.totals }

def rows (is : Intervals) : List Row :=
  (is.totals.entries.filter (0 < ·.2.nanos)).map fun e => ⟨e.1, .whole e.2.nanos, e.2.segments⟩

end Intervals

end EventMetrics
