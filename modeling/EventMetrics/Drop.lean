import EventMetrics.Json

namespace EventMetrics

inductive DropReason
  /-- Older than the latest instant already reached. -/
  | outOfOrder
  /-- A dimension, link or value field is absent. -/
  | missingField
  /-- The value field holds text. -/
  | unparseableValue
  /-- The metric's condition was unknown. -/
  | conditionUnknown
  /-- The event both starts and stops. -/
  | ambiguousCondition
  /-- One more key would exceed the limit. -/
  | dimensionLimit
  deriving DecidableEq, Repr

namespace DropReason

def all : List DropReason :=
  [outOfOrder, missingField, unparseableValue, conditionUnknown, ambiguousCondition, dimensionLimit]

def name : DropReason → String
  | outOfOrder => "out_of_order"
  | missingField => "missing_field"
  | unparseableValue => "unparseable_value"
  | conditionUnknown => "condition_unknown"
  | ambiguousCondition => "ambiguous_condition"
  | dimensionLimit => "dimension_limit"

def ofName? (s : String) : Option DropReason := all.find? (·.name = s)

end DropReason

structure DropCounts where
  outOfOrder : Nat := 0
  missingField : Nat := 0
  unparseableValue : Nat := 0
  conditionUnknown : Nat := 0
  ambiguousCondition : Nat := 0
  dimensionLimit : Nat := 0
  deriving DecidableEq, Repr

namespace DropCounts

def count (c : DropCounts) : DropReason → Nat
  | .outOfOrder => c.outOfOrder
  | .missingField => c.missingField
  | .unparseableValue => c.unparseableValue
  | .conditionUnknown => c.conditionUnknown
  | .ambiguousCondition => c.ambiguousCondition
  | .dimensionLimit => c.dimensionLimit

def ofFn (f : DropReason → Nat) : DropCounts where
  outOfOrder := f .outOfOrder
  missingField := f .missingField
  unparseableValue := f .unparseableValue
  conditionUnknown := f .conditionUnknown
  ambiguousCondition := f .ambiguousCondition
  dimensionLimit := f .dimensionLimit

def record (c : DropCounts) (r : DropReason) : DropCounts :=
  ofFn fun q => if q = r then c.count q + 1 else c.count q

def merge (a b : DropCounts) : DropCounts := ofFn fun r => a.count r + b.count r

def total (c : DropCounts) : Nat := DropReason.all.foldl (fun n r => n + c.count r) 0

def toList (c : DropCounts) : List (DropReason × Nat) :=
  (DropReason.all.map fun r => (r, c.count r)).filter (·.2 ≠ 0)

def toJson (c : DropCounts) : Json := .object (c.toList.map fun e => (e.1.name, .int e.2))

end DropCounts

end EventMetrics
