import EventMetrics.DimensionKey
import EventMetrics.Drop
import EventMetrics.Matcher

namespace EventMetrics.Condition

structure Simple where
  start : Nat
  stop : Nat
  stopAll : Option Nat
  nested : Bool
  dimensions : List String
  maxDimensions : Nat
  /-- What unseen keys read: the initial signal, or off once everything was stopped. -/
  unseen : Signal
  counts : Table DimensionKey Nat := .empty

inductive Effect
  | unchanged
  | changed
  | dropped (reason : DropReason)
  deriving DecidableEq, Repr

namespace Simple

def signalAt (c : Simple) (k : DimensionKey) : Signal :=
  match c.counts.get? k with
  | some n => .ofBool (0 < n)
  | none => c.unseen

def anyOn (c : Simple) : Bool := c.counts.entries.any (0 < ·.2)

/-- Without slices the one signal; with slices, on if some key is on, off if keys are known and all
are off. -/
def overall (c : Simple) : Signal :=
  if c.dimensions.isEmpty then c.signalAt .empty
  else if c.anyOn then .on
  else if c.counts.isEmpty then c.unseen
  else .off

/-- The count of a key after a start or a stop, as a 32-bit word. -/
def nextCount (c : Simple) (isStart : Bool) (before : Nat) : Nat :=
  if isStart then (if c.nested then (before + 1) % 4294967296 else 1)
  else if c.nested then before - 1
  else 0

def stopEverything (c : Simple) : Simple × Effect :=
  let changed := c.unseen != .off || c.anyOn
  ({ c with unseen := .off, counts := .empty }, if changed then .changed else .unchanged)

/-- A start or a stop of one key. A zero count that reads like an unseen key is forgotten. -/
def turn (c : Simple) (isStart : Bool) (k : DimensionKey) : Simple × Effect :=
  let known := c.counts.contains k
  let forgettable := c.unseen == .off
  if !known && !isStart && forgettable then (c, .unchanged)
  else if !known && c.maxDimensions ≤ c.counts.size then (c, .dropped .dimensionLimit)
  else
    let n := c.nextCount isStart ((c.counts.get? k).getD 0)
    let counts := if n = 0 ∧ forgettable then c.counts.erase k else c.counts.insert k n
    let after := { c with counts }
    (after, if after.signalAt k = c.signalAt k then .unchanged else .changed)

/-- Whether a word holds the count that a start leads to. -/
def countFits (c : Simple) (e : Event) (hits : Hits) : Bool :=
  if c.stopAll.any hits.get then true
  else
    match hits.get c.start, hits.get c.stop, DimensionKey.extract? e c.dimensions with
    | true, false, some k => !c.nested || (c.counts.get? k).getD 0 + 1 < 4294967296
    | _, _, _ => true

def onEvent (c : Simple) (e : Event) (hits : Hits) : Simple × Effect :=
  if c.stopAll.any hits.get then c.stopEverything
  else
    match hits.get c.start, hits.get c.stop with
    | false, false => (c, .unchanged)
    | true, true => (c, .dropped .ambiguousCondition)
    | isStart, _ =>
      match DimensionKey.extract? e c.dimensions with
      | none => (c, .dropped .missingField)
      | some k => c.turn isStart k

end Simple

end EventMetrics.Condition
