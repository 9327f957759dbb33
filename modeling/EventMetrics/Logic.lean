namespace EventMetrics

inductive LogicalOp
  | and
  | or
  | not
  | nand
  | nor
  deriving DecidableEq, Repr

namespace LogicalOp

def all : List LogicalOp := [and, or, not, nand, nor]

def name : LogicalOp → String
  | and => "and"
  | or => "or"
  | not => "not"
  | nand => "nand"
  | nor => "nor"

def ofName? (s : String) : Option LogicalOp := all.find? (·.name = s)

/-- `not` looks at its first operand; a missing one counts as false. -/
def eval : LogicalOp → List Bool → Bool
  | and, bs => bs.all id
  | or, bs => bs.any id
  | not, bs => !(bs.headD false)
  | nand, bs => !(bs.all id)
  | nor, bs => !(bs.any id)

end LogicalOp

inductive Signal
  | on
  | off
  | unknown
  deriving DecidableEq, Repr

namespace Signal

def name : Signal → String
  | on => "true"
  | off => "false"
  | unknown => "unknown"

def ofBool (b : Bool) : Signal := if b then on else off

def isOn : Signal → Bool
  | on => true
  | _ => false

def negate : Signal → Signal
  | on => off
  | off => on
  | unknown => unknown

def conj (xs : List Signal) : Signal :=
  if off ∈ xs then off else if unknown ∈ xs then unknown else on

def disj (xs : List Signal) : Signal :=
  if on ∈ xs then on else if unknown ∈ xs then unknown else off

/-- `not` looks at its first operand; without one nothing is known. -/
def combine : LogicalOp → List Signal → Signal
  | .and, xs => conj xs
  | .or, xs => disj xs
  | .not, xs => (xs.headD unknown).negate
  | .nand, xs => (conj xs).negate
  | .nor, xs => (disj xs).negate

end Signal

end EventMetrics
