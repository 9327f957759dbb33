import EventMetrics.Condition.Simple

namespace EventMetrics

open Definition (Referrer)

inductive Condition
  | simple (c : Condition.Simple)
  | combination (op : LogicalOp) (children : List Nat)

namespace Condition

def children : Condition → List Nat
  | simple _ => []
  | combination _ children => children

def dimensions : Condition → List String
  | simple c => c.dimensions
  | combination .. => []

def overall (c : Condition) (signals : List Signal) : Signal :=
  match c with
  | simple s => s.overall
  | combination op children => Signal.combine op (children.map (signals.getD · .unknown))

/-- What one event did: which conditions may have changed, and which ones dropped it, in the order
in which they were asked. -/
structure Update where
  changed : List Bool
  dropped : List (Nat × DropReason) := []
  deriving DecidableEq, Repr

def Update.isChanged (u : Update) (index : Nat) : Bool := u.changed.getD index false

end Condition

structure Conditions where
  names : List String
  nodes : List Condition
  /-- Every condition after its children. -/
  order : List Nat

namespace Conditions

def size (cs : Conditions) : Nat := cs.nodes.length

def isEmpty (cs : Conditions) : Bool := cs.nodes.isEmpty

def resolve (names : List String) (referrer : Referrer) (id : String) :
    Except Definition.Error Nat :=
  match names.findIdx? (· = id) with
  | some i => .ok i
  | none => .error (.unknownCondition referrer id)

def compileOne (names : List String) (matchers : Matchers) (limit : Nat)
    (d : Definition.Condition) : Except Definition.Error Condition := do
  let referrer := Referrer.condition d.id
  match d.rule with
  | .simple s =>
    if s.start = s.stop then throw (.sameStartStop referrer s.start)
    let start ← matchers.resolve? referrer s.start
    let stop ← matchers.resolve? referrer s.stop
    let stopAll ← s.stopAll.mapM (matchers.resolve? referrer)
    return .simple
      { start, stop, stopAll, nested := s.nested, dimensions := s.dimensions
        maxDimensions := s.maxDimensions.getD limit, unseen := s.initial.signal }
  | .combination op children =>
    Definition.checkArity referrer op children.length
    return .combination op (← children.mapM (resolve names referrer))

/-- `limit` bounds the slices of conditions that set no limit of their own. -/
def compile (defs : List Definition.Condition) (matchers : Matchers) (limit : Nat) :
    Except Definition.Error Conditions := do
  let names := defs.map (·.id)
  if let some id := Definition.firstRepeated? [] names then throw (.duplicateCondition id)
  let nodes ← defs.mapM (compileOne names matchers limit)
  match Graph.childrenFirst (nodes.map Condition.children) with
  | .ok order => return { names, nodes, order }
  | .error cycle => throw (.conditionCycle (cycle.map fun i => names.getD i ""))

def resolve? (cs : Conditions) (referrer : Referrer) (id : String) : Except Definition.Error Nat :=
  resolve cs.names referrer id

def dimensions (cs : Conditions) (index : Nat) : List String :=
  match cs.nodes[index]? with
  | some c => c.dimensions
  | none => []

structure Passing where
  nodes : List Condition
  update : Condition.Update

/-- Offers the event to one condition after its children. A combination counts as changed when a
child does. -/
def offer (e : Event) (hits : Hits) (p : Passing) (index : Nat) : Passing :=
  match p.nodes[index]? with
  | none => p
  | some (.combination _ children) =>
    let changed := p.update.changed.set index (children.any p.update.isChanged)
    { p with update := { p.update with changed } }
  | some (.simple c) =>
    let (c, effect) := c.onEvent e hits
    let nodes := p.nodes.set index (.simple c)
    match effect with
    | .unchanged => { p with nodes }
    | .changed => { nodes, update := { p.update with changed := p.update.changed.set index true } }
    | .dropped r => { nodes, update := { p.update with dropped := p.update.dropped ++ [(index, r)] } }

def onEvent (cs : Conditions) (e : Event) (hits : Hits) : Conditions × Condition.Update :=
  let p := cs.order.foldl (offer e hits)
    { nodes := cs.nodes, update := { changed := List.replicate cs.size false } }
  ({ cs with nodes := p.nodes }, p.update)

def countsFit (cs : Conditions) (e : Event) (hits : Hits) : Bool :=
  cs.nodes.all fun
    | .simple c => c.countFits e hits
    | .combination .. => true

def overall (cs : Conditions) : List Signal :=
  cs.order.foldl
    (fun signals i =>
      match cs.nodes[i]? with
      | some c => signals.set i (c.overall signals)
      | none => signals)
    (List.replicate cs.size .unknown)

def query (cs : Conditions) (index : Nat) (key : Option DimensionKey) : Signal :=
  match cs.nodes[index]?, key with
  | some (.simple c), some k => c.signalAt k
  | some (.simple c), none => c.overall
  | _, _ => cs.overall.getD index .unknown

end Conditions

end EventMetrics
