import EventMetrics.Definition.Error
import EventMetrics.Event
import EventMetrics.Graph
import EventMetrics.Wildcard

namespace EventMetrics

namespace Definition

def FieldTest.accepts (t : FieldTest) (v : Value) : Bool :=
  match t with
  | eq l => v.same l.toValue
  | lt l => v.compare? l.toValue == some .lt
  | gt l => v.compare? l.toValue == some .gt
  | lte l => v.compare? l.toValue == some .lt || v.compare? l.toValue == some .eq
  | gte l => v.compare? l.toValue == some .gt || v.compare? l.toValue == some .eq
  | oneOf ls => ls.any fun l => v.same l.toValue
  | notOneOf ls => !(ls.any fun l => v.same l.toValue)
  | wildcard pattern =>
    match v.toText? with
    | some s => Wildcard.isMatch pattern s
    | none => false

def FieldConstraint.holds (c : FieldConstraint) (e : Event) : Bool :=
  match e.field? c.field with
  | some v => c.test.accepts v
  | none => false

/-- Order needs numbers, and a set of values has some. -/
def FieldConstraint.check (matcher : String) (c : FieldConstraint) : Except Error Unit :=
  match c.test with
  | .lt l | .gt l | .lte l | .gte l =>
    if l.toValue.toFloat?.isNone then .error (.nonNumericLiteral matcher c.field l) else .ok ()
  | .oneOf ls | .notOneOf ls =>
    if ls.isEmpty then .error (.emptyValueSet matcher c.field) else .ok ()
  | .eq _ | .wildcard _ => .ok ()

def checkArity (owner : Referrer) (op : LogicalOp) (children : Nat) : Except Error Unit :=
  if op = .not ∧ children ≠ 1 then .error (.notTakesOne owner children)
  else if children = 0 then .error (.noChildren owner op)
  else .ok ()

def firstRepeated? (seen : List String) : List String → Option String
  | [] => none
  | s :: rest => if s ∈ seen then some s else firstRepeated? (s :: seen) rest

end Definition

open Definition (Referrer)

abbrev Hits := List Bool

def Hits.get (hits : Hits) (index : Nat) : Bool := hits.getD index false

inductive Matcher
  | simple (atom : Int) (constraints : List Definition.FieldConstraint)
  | combination (op : LogicalOp) (children : List Nat)

def Matcher.children : Matcher → List Nat
  | simple .. => []
  | combination _ children => children

def Matcher.judge (m : Matcher) (e : Event) (hits : Hits) : Bool :=
  match m with
  | simple atom constraints => e.atom == atom && constraints.all (·.holds e)
  | combination op children => op.eval (children.map hits.get)

structure Matchers where
  names : List String
  nodes : List Matcher
  /-- Every matcher after its children. -/
  order : List Nat

namespace Matchers

def size (ms : Matchers) : Nat := ms.nodes.length

def isEmpty (ms : Matchers) : Bool := ms.nodes.isEmpty

def resolve (names : List String) (referrer : Referrer) (id : String) :
    Except Definition.Error Nat :=
  match names.findIdx? (· = id) with
  | some i => .ok i
  | none => .error (.unknownMatcher referrer id)

def compileOne (names : List String) (d : Definition.Matcher) : Except Definition.Error Matcher := do
  match d.rule with
  | .simple atom constraints =>
    constraints.forM (·.check d.id)
    return .simple atom constraints
  | .combination op children =>
    Definition.checkArity (.matcher d.id) op children.length
    return .combination op (← children.mapM (resolve names (.matcher d.id)))

def compile (defs : List Definition.Matcher) : Except Definition.Error Matchers := do
  let names := defs.map (·.id)
  if let some id := Definition.firstRepeated? [] names then throw (.duplicateMatcher id)
  let nodes ← defs.mapM (compileOne names)
  match Graph.childrenFirst (nodes.map Matcher.children) with
  | .ok order => return { names, nodes, order }
  | .error cycle => throw (.matcherCycle (cycle.map fun i => names.getD i ""))

def resolve? (ms : Matchers) (referrer : Referrer) (id : String) : Except Definition.Error Nat :=
  resolve ms.names referrer id

def judgeAt (ms : Matchers) (e : Event) (hits : Hits) (index : Nat) : Hits :=
  match ms.nodes[index]? with
  | some m => hits.set index (m.judge e hits)
  | none => hits

def judge (ms : Matchers) (e : Event) : Hits :=
  ms.order.foldl (ms.judgeAt e) (List.replicate ms.size false)

end Matchers

end EventMetrics
