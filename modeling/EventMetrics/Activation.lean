import EventMetrics.Matcher

namespace EventMetrics

structure Activation where
  trigger : Nat
  deactivate : Option Nat
  ttl : Int
  /-- The first instant at which the window is closed again, if it was opened. -/
  expiry : Option Int := none
  deriving DecidableEq, Repr

def later : Option Int → Option Int → Option Int
  | some a, some b => some (max a b)
  | some a, none => some a
  | none, b => b

namespace Activation

def onEvent (a : Activation) (time : Int) (hits : Hits) : Activation :=
  let opened := if hits.get a.trigger then later a.expiry (some (Instant.after time a.ttl)) else a.expiry
  { a with expiry := if a.deactivate.any hits.get then none else opened }

def isOpen (a : Activation) (now : Int) : Bool := a.expiry.any (now < ·)

end Activation

abbrev Activations := List Activation

namespace Activations

open Definition (Referrer)

def compile (matchers : Matchers) (metric : String) (defs : List Definition.Activation) :
    Except Definition.Error Activations :=
  defs.mapM fun d => do
    let trigger ← matchers.resolve? (.activation metric) d.matcher
    let deactivate ← d.deactivate.mapM (matchers.resolve? (.activation metric))
    return { trigger, deactivate, ttl := d.ttl.toInstant }

def onEvent (as : Activations) (time : Int) (hits : Hits) : Activations :=
  as.map (·.onEvent time hits)

def isActive (as : Activations) (now : Int) : Bool :=
  as.isEmpty || as.any (·.isOpen now)

def endsAt (as : Activations) (now : Int) : Option Int :=
  as.foldl (fun latest a => later latest (a.expiry.filter (now < ·))) none

end Activations

end EventMetrics
