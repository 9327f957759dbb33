import EventMetrics.Activation
import EventMetrics.Alert
import EventMetrics.Condition
import EventMetrics.Metric.Grid
import EventMetrics.Metric.Intervals

namespace EventMetrics

open Definition (DurationAggregation)

/-- How a metric asks its condition: overall, or at the key that the links take from the event. -/
structure Gate where
  condition : Nat
  links : List (String × String)
  deriving DecidableEq, Repr

def Gate.isLinked (g : Gate) : Bool := !g.links.isEmpty

structure Timing where
  start : Nat
  stop : Nat
  stopAll : Option Nat
  nested : Bool
  aggregation : DurationAggregation
  deriving DecidableEq, Repr

inductive MeasureRule
  | sampled (what : Nat) (reading : Reading)
  | timed (t : Timing)
  | passed (what : Nat)

structure MetricPlan where
  id : String
  rule : MeasureRule
  gate : Option Gate
  dimensions : List String
  maxDimensions : Nat

def MetricPlan.isBucketed (p : MetricPlan) : Bool :=
  match p.rule with
  | .passed _ => false
  | _ => true

structure Turnover where
  accepted : Nat := 0
  buckets : Nat := 0
  skipped : Nat := 0
  alerts : Nat := 0
  events : Nat := 0
  deriving DecidableEq, Repr

structure Metric where
  plan : MetricPlan
  grid : Grid
  windows : Activations
  active : Bool := false
  /-- The unlinked condition was unknown when the current window opened. -/
  windowUnknown : Bool := false
  /-- Samples of the open bucket dropped because the condition was unknown. -/
  unknownDrops : Nat := 0
  pending : Option Record.Skipped := none
  samples : Accumulators := .empty
  intervals : Intervals := {}
  trackers : List (Alert.Tracker Float) := []
  drops : DropCounts := {}
  turnover : Turnover := {}

inductive Outcome
  /-- No sample of the metric, or excluded without trace. -/
  | ignored
  | accepted
  | dropped (reason : DropReason)
  deriving DecidableEq, Repr

structure Emitting (α : Type) where
  state : α
  records : List Record := []

def Emitting.andThen {α : Type} (r : Emitting α) (f : α → Emitting α) : Emitting α :=
  let q := f r.state
  ⟨q.state, r.records ++ q.records⟩

namespace Metric

def gateOpen (m : Metric) (cs : Conditions) (link : Option DimensionKey) : Bool :=
  m.active &&
    match m.plan.gate with
    | none => true
    | some g => (cs.query g.condition link).isOn

def regate (m : Metric) (t : Timing) (cs : Conditions) (time : Int) : Metric :=
  { m with intervals := m.intervals.regate t.aggregation time (m.gateOpen cs) }

def onIntervals (m : Metric) (f : Timing → Intervals → Intervals) : Metric :=
  match m.plan.rule with
  | .timed t => { m with intervals := f t m.intervals }
  | _ => m

/-- Only an overall signal can make a whole window unknown; links are asked sample by sample. -/
def openWindow (m : Metric) (cs : Conditions) : Metric :=
  let windowUnknown := match m.plan.gate with
    | none => false
    | some g => m.plan.isBucketed && !g.isLinked && cs.query g.condition none == .unknown
  { m with windowUnknown }

def activate (m : Metric) (cs : Conditions) (time : Int) : Metric :=
  let opens := m.plan.isBucketed && m.grid.current.isNone
  let m := { m with active := true, grid := if opens then m.grid.openAt time else m.grid }
  let m := m.openWindow cs
  m.onIntervals fun t is => is.regate t.aggregation time (m.gateOpen cs)

def deactivate (m : Metric) (time : Int) : Metric :=
  let m := { m with active := false }
  m.onIntervals fun t is => is.regate t.aggregation time fun _ => false

/-- The start of the engine opens the first bucket of a metric that is active from the start. -/
def start (m : Metric) (cs : Conditions) (time : Int) : Metric :=
  if m.windows.isActive time then m.activate cs time else m

def flushPending (m : Metric) : Emitting Metric :=
  match m.pending with
  | none => ⟨m, []⟩
  | some s =>
    ⟨{ m with pending := none, turnover := { m.turnover with skipped := m.turnover.skipped + 1 } },
      [.skipped s]⟩

/-- One more empty bucket, joined to the one before it if nothing lies between. -/
def skip (m : Metric) (start stop : Int) (reason : SkipReason) : Emitting Metric :=
  let fresh (m : Metric) : Metric :=
    { m with pending := some { metric := m.plan.id, start, stop, buckets := 1, reason } }
  match m.pending with
  | some s =>
    if s.stop = start ∧ s.reason = reason then
      ⟨{ m with pending := some { s with stop, buckets := s.buckets + 1 } }, []⟩
    else m.flushPending.andThen fun m => ⟨fresh m, []⟩
  | none => ⟨fresh m, []⟩

def rows (m : Metric) : List Row :=
  match m.plan.rule with
  | .sampled _ reading => m.samples.rows reading
  | .timed _ => m.intervals.rows
  | .passed _ => []

def clearBucket (m : Metric) : Metric :=
  { m with samples := .empty, intervals := { m.intervals with totals := .empty }, unknownDrops := 0 }

def feed (num : Nat) (firedAt : Int) (rows : List (DimensionKey × Float)) :
    List (Alert.Tracker Float) → List (Alert.Tracker Float) × List Record.Alert
  | [] => ([], [])
  | t :: rest =>
    let (fed, firings) := t.onBucket num firedAt rows
    let (others, alerts) := feed num firedAt rows rest
    (fed :: others, firings.map (·.toRecord t.rule) ++ alerts)

def emitRows (m : Metric) (slot : Slot) (stop : Int) (rows : List Row) : Emitting Metric :=
  let buckets : List Record := rows.map fun r => .bucket
    { metric := m.plan.id, dimension := r.key, start := slot.start, stop, value := r.value
      samples := r.samples, isPartial := stop < slot.stop }
  let (trackers, alerts) := feed slot.num stop (rows.map fun r => (r.key, r.value.toFloat)) m.trackers
  let turnover := { m.turnover with
    buckets := m.turnover.buckets + buckets.length, alerts := m.turnover.alerts + alerts.length }
  ⟨{ m with trackers, turnover }, buckets ++ alerts.map .alert⟩

/-- Closes the books of `slot` at `stop`. An empty bucket counts as skipped if it is to be
reported. -/
def flushBucket (m : Metric) (slot : Slot) (stop : Int) (reportEmpty : Bool) : Emitting Metric :=
  let rows := m.rows
  let reason := if 0 < m.unknownDrops then SkipReason.conditionUnknown else .noData
  let m := m.clearBucket
  if rows.isEmpty then
    if reportEmpty then m.skip slot.start stop reason else ⟨m, []⟩
  else m.flushPending.andThen fun m => m.emitRows slot stop rows

/-- Closes `slot` at its end. The next one opens only if the metric is still active there. -/
def roll (m : Metric) (cs : Conditions) (slot : Slot) : Emitting Metric :=
  let m := m.onIntervals fun t is => is.accrueTo t.aggregation slot.stop
  (m.flushBucket slot slot.stop true).andThen fun m =>
    if m.active && m.windows.isActive slot.stop then
      ⟨{ m with grid := m.grid.roll }.openWindow cs, []⟩
    else
      let m := { m with grid := m.grid.close }
      ⟨if m.active then m.deactivate slot.stop else m, []⟩

/-- The first instant at which the metric changes by itself. -/
def nextDeadline (m : Metric) : Option Int :=
  let expiry := if m.active && !m.windows.isEmpty then m.windows.endsAt Instant.first else none
  match m.grid.current, expiry with
  | some slot, some e => some (min slot.stop e)
  | some slot, none => some slot.stop
  | none, e => e

def fire (m : Metric) (cs : Conditions) (due : Int) : Option (Emitting Metric) :=
  match m.grid.current with
  | some slot =>
    if slot.stop ≤ due then some (m.roll cs slot)
    else if m.active && !m.windows.isActive due then some ⟨m.deactivate due, []⟩
    else none
  | none => if m.active && !m.windows.isActive due then some ⟨m.deactivate due, []⟩ else none

/-- The next timer before `limit`, or at it if it is included. -/
def tick (m : Metric) (cs : Conditions) (limit : Int) (inclusive : Bool) : Option (Emitting Metric) :=
  match m.nextDeadline with
  | none => none
  | some d => if limit < d ∨ (!inclusive ∧ d = limit) then none else m.fire cs d

def followWindows (m : Metric) (cs : Conditions) (time : Int) : Metric :=
  match m.active, m.windows.isActive time with
  | false, true => m.activate cs time
  | true, false => m.deactivate time
  | _, _ => m

/-- What the condition says about a sample; a missing link field is an error. -/
def sampleSignal (m : Metric) (cs : Conditions) (e : Event) : Except DropReason Signal :=
  match m.plan.gate with
  | none => .ok .on
  | some g =>
    if g.isLinked then
      match DimensionKey.linked? e g.links with
      | none => .error .missingField
      | some link => .ok (cs.query g.condition (some link))
    else .ok (cs.query g.condition none)

inductive Verdict
  | ignore
  | drop (reason : DropReason)
  | unknown
  | take (key : DimensionKey)

def judge (m : Metric) (cs : Conditions) (e : Event) : Verdict :=
  if !m.active then .ignore
  else
    match DimensionKey.extract? e m.plan.dimensions with
    | none => .drop .missingField
    | some key =>
      match m.sampleSignal cs e with
      | .error r => .drop r
      | .ok .unknown => .unknown
      | .ok signal => if m.windowUnknown then .unknown else if signal.isOn then .take key else .ignore

def takeSample (m : Metric) (reading : Reading) (key : DimensionKey) (e : Event) :
    Except DropReason Metric := do
  let q ← reading.sample e
  let samples ← m.samples.add m.plan.maxDimensions key q
  return { m with samples }

def passOn (m : Metric) (key : DimensionKey) (e : Event) : Emitting Metric :=
  ⟨{ m with turnover := { m.turnover with events := m.turnover.events + 1 } },
    [.event { metric := m.plan.id, dimension := key, atom := e.atom, time := e.time
              fields := e.fields }]⟩

def sampleEvent (m : Metric) (cs : Conditions) (e : Event)
    (accept : DimensionKey → Except DropReason (Emitting Metric)) : Emitting Metric × Outcome :=
  match m.judge cs e with
  | .ignore => (⟨m, []⟩, .ignored)
  | .drop r => (⟨m, []⟩, .dropped r)
  | .unknown => (⟨{ m with unknownDrops := m.unknownDrops + 1 }, []⟩, .dropped .conditionUnknown)
  | .take key =>
    match accept key with
    | .ok r => (r, .accepted)
    | .error r => (⟨m, []⟩, .dropped r)

/-- Condition changes and a stop of everything come before the event's own start or stop. -/
def prepareIntervals (m : Metric) (t : Timing) (cs : Conditions) (e : Event) (hits : Hits)
    (u : Condition.Update) : Metric :=
  let changed := m.plan.gate.any fun g => u.isChanged g.condition
  let m := if changed then m.regate t cs e.time else m
  if t.stopAll.any hits.get then
    { m with intervals := m.intervals.stopAll t.aggregation e.time }
  else m

def intervalLink (m : Metric) (e : Event) : Except DropReason (Option DimensionKey) :=
  match m.plan.gate with
  | some g =>
    if g.isLinked then
      match DimensionKey.linked? e g.links with
      | some link => .ok (some link)
      | none => .error .missingField
    else .ok none
  | none => .ok none

def startInterval (m : Metric) (t : Timing) (cs : Conditions) (e : Event) (key : DimensionKey) :
    Except DropReason Metric := do
  let link ← m.intervalLink e
  let intervals ← m.intervals.start t.nested m.plan.maxDimensions e.time (m.gateOpen cs link) key link
  return { m with intervals }

def turnInterval (m : Metric) (t : Timing) (cs : Conditions) (e : Event) (hits : Hits) :
    Metric × Outcome :=
  match hits.get t.start, hits.get t.stop with
  | true, true => (m, .dropped .ambiguousCondition)
  | false, false => (m, .ignored)
  | isStart, _ =>
    match DimensionKey.extract? e m.plan.dimensions with
    | none => (m, .dropped .missingField)
    | some key =>
      if isStart then
        match m.startInterval t cs e key with
        | .ok m => (m, .accepted)
        | .error r => (m, .dropped r)
      else
        ({ m with intervals := m.intervals.stop t.aggregation t.nested e.time key }, .accepted)

def measure (m : Metric) (cs : Conditions) (e : Event) (hits : Hits) (u : Condition.Update) :
    Emitting Metric × Outcome :=
  match m.plan.rule with
  | .sampled what reading =>
    if hits.get what then
      m.sampleEvent cs e fun key => (m.takeSample reading key e).map (⟨·, []⟩)
    else (⟨m, []⟩, .ignored)
  | .passed what =>
    if hits.get what then m.sampleEvent cs e fun key => .ok (m.passOn key e)
    else (⟨m, []⟩, .ignored)
  | .timed t =>
    let (m, outcome) := (m.prepareIntervals t cs e hits u).turnInterval t cs e hits
    (⟨m, []⟩, outcome)

def note (m : Metric) : Outcome → Metric
  | .ignored => m
  | .accepted => { m with turnover := { m.turnover with accepted := m.turnover.accepted + 1 } }
  | .dropped r => { m with drops := m.drops.record r }

/-- Closes the open bucket at `now`, before its end, and stops the grid. Timers at `now` do not
fire. -/
def closeAt (m : Metric) (now : Int) : Emitting Metric :=
  match m.grid.current with
  | none => ⟨m, []⟩
  | some slot =>
    let stop := max now slot.start
    let m := m.onIntervals fun t is => is.settle t.aggregation stop
    (m.flushBucket slot stop (slot.start < stop)).andThen fun m => ⟨{ m with grid := m.grid.close }, []⟩

end Metric

end EventMetrics
