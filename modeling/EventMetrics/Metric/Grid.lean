import EventMetrics.Instant

namespace EventMetrics

structure Slot where
  start : Int
  stop : Int
  num : Nat
  deriving DecidableEq, Repr

/-- Buckets of one size. A grid is anchored where a bucket opens with none open before it; the buckets
after that one are contiguous. -/
structure Grid where
  size : Int
  current : Option Slot := none
  last : Option Slot := none
  deriving DecidableEq, Repr

namespace Grid

/-- The number of a bucket anchored at `anchor`: whole slots that passed since the last one count. -/
def numberAt (g : Grid) (anchor : Int) : Nat :=
  match g.last with
  | none => 0
  | some l =>
    if l.stop ≤ anchor then l.num + 1 + ((anchor - l.stop) / g.size).toNat else l.num + 1

/-- Whether words hold the number of a bucket anchored at `anchor`, and the time since the last one. -/
def openFits (g : Grid) (anchor : Int) : Bool :=
  match g.last with
  | none => true
  | some l =>
    (anchor < l.stop || (g.size ≠ 0 && Instant.InRange (anchor - l.stop))) &&
      g.numberAt anchor < 18446744073709551616

def openAt (g : Grid) (anchor : Int) : Grid :=
  { g with current := some ⟨anchor, Instant.after anchor g.size, g.numberAt anchor⟩ }

def close (g : Grid) : Grid :=
  match g.current with
  | none => g
  | some slot => { g with current := none, last := some slot }

def next (g : Grid) (slot : Slot) : Slot :=
  ⟨slot.stop, Instant.after slot.stop g.size, slot.num + 1⟩

def nextFits (slot : Slot) : Bool := slot.num + 1 < 18446744073709551616

def roll (g : Grid) : Grid :=
  match g.current with
  | none => g
  | some slot => { g with current := some (g.next slot), last := some slot }

end Grid

end EventMetrics
