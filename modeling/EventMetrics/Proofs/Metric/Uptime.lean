import EventMetrics.Proofs.Metric.Life

namespace EventMetrics

namespace Instant

/-- How many instants pass from `a` up to `b`. -/
def count (p : Int → Bool) (a b : Int) : Nat := (List.range (b - a).toNat).countP fun n : Nat => p (a + n)

variable {p q : Int → Bool} {a b c : Int}

theorem count_self (p : Int → Bool) (a : Int) : count p a a = 0 := by simp [count]

theorem counts_self {α : Type} (p : α → Int → Bool) (a : Int) :
    (fun k => (count (p k) a a : Int)) = fun _ => 0 := by
  funext k
  rw [count_self]
  rfl

theorem count_add (p : Int → Bool) (hab : a ≤ b) (hbc : b ≤ c) : count p a c = count p a b + count p b c := by
  have hlength : (c - a).toNat = (b - a).toNat + (c - b).toNat := by omega
  rw [count]
  rw [hlength, List.range_add, List.countP_append, List.countP_map]
  congr 1
  apply List.countP_congr
  intro n _
  have hn : a + ((b - a).toNat + n : Nat) = b + n := by omega
  simp only [Function.comp_apply, hn]

theorem count_congr (h : ∀ i, a ≤ i → i < b → p i = q i) : count p a b = count q a b := by
  apply List.countP_congr
  intro n hn
  rw [List.mem_range] at hn
  rw [h (a + n) (by omega) (by omega)]

theorem count_eq_zero : count p a b = 0 ↔ ∀ i, a ≤ i → i < b → p i = false := by
  simp only [count, List.countP_eq_zero, List.mem_range, Bool.not_eq_true]
  constructor
  · intro h i ha hb
    have hi := h (i - a).toNat (by omega)
    rwa [show a + ((i - a).toNat : Int) = i by omega] at hi
  · intro h n hn
    exact h (a + n) (by omega) (by omega)

theorem count_of_forall (hab : a ≤ b) {v : Bool} (h : ∀ i, a ≤ i → i < b → p i = v) :
    (count p a b : Int) = if v then b - a else 0 := by
  cases v with
  | false =>
      rw [count_eq_zero.2 h]
      rfl
  | true =>
      have hall : count p a b = (List.range (b - a).toNat).length := by
        apply List.countP_eq_length.2
        intro n hn
        rw [List.mem_range] at hn
        exact h (a + n) (by omega) (by omega)
      rw [hall, List.length_range]
      simp only [if_true]
      omega

end Instant

def History.until (H : History) (i : Int) : History := H.filter (·.1.time ≤ i)

def Activations.after (as : Activations) (ms : Matchers) (H : History) : Activations :=
  H.foldl (fun as x => as.onEvent x.1.time (ms.judge x.1)) as

def Conditions.after (cs : Conditions) (ms : Matchers) (H : History) : Conditions :=
  H.foldl (fun cs x => (cs.onEvent x.1 (ms.judge x.1)).1) cs

/-- The starts of a key without their stops, after an event that may start it, if that is accepted, or
stop it. -/
def Timing.turn (t : Timing) (hits : Hits) (isAtKey isAccepted : Bool) (depth : Nat) : Nat :=
  match hits.get t.start, hits.get t.stop with
  | true, false => if isAtKey && isAccepted then (if t.nested then depth + 1 else 1) else depth
  | false, true => if isAtKey then (if t.nested then depth - 1 else 0) else depth
  | _, _ => depth

def Timing.follow (t : Timing) (hits : Hits) (isAtKey isAccepted : Bool) (depth : Nat) : Nat :=
  t.turn hits isAtKey isAccepted (if t.stopAll.any hits.get then 0 else depth)

namespace MetricPlan

def isAt (p : MetricPlan) (ev : Event) (k : DimensionKey) : Bool :=
  (DimensionKey.extract? ev p.dimensions).any (k.canonical = ·.canonical)

/-- The starts of a key without their stops, after some events. -/
def depth (p : MetricPlan) (t : Timing) (ms : Matchers) (H : History) (k : DimensionKey) : Nat :=
  H.foldl (fun depth x => t.follow (ms.judge x.1) (p.isAt x.1 k) x.2 depth) 0

end MetricPlan

theorem Activations.after_append (as : Activations) (ms : Matchers) (H : History) (x : Event × Bool) :
    as.after ms (H ++ [x]) = (as.after ms H).onEvent x.1.time (ms.judge x.1) := List.foldl_append

theorem Conditions.after_append (cs : Conditions) (ms : Matchers) (H : History) (x : Event × Bool) :
    cs.after ms (H ++ [x]) = ((cs.after ms H).onEvent x.1 (ms.judge x.1)).1 := List.foldl_append

theorem MetricPlan.depth_append (p : MetricPlan) (t : Timing) (ms : Matchers) (H : History) (x : Event × Bool)
    (k : DimensionKey) : p.depth t ms (H ++ [x]) k =
      t.follow (ms.judge x.1) (p.isAt x.1 k) x.2 (p.depth t ms H k) := List.foldl_append

namespace Metric

def isGateOn (m : Metric) (cs : Conditions) : Bool := m.plan.gate.all fun g => (cs.query g.condition none).isOn

/-- Whether an instant counts for a key, among matchers, conditions and events. -/
def isUp (m : Metric) (t : Timing) (ms : Matchers) (cs : Conditions) (H : History) (k : DimensionKey) (i : Int) :
    Bool :=
  0 < m.plan.depth t ms (H.until i) k && (m.windows.after ms (H.until i)).isActive i &&
    m.isGateOn (cs.after ms (H.until i))

variable {m : Metric} {t : Timing} {ms : Matchers} {cs : Conditions} {H : History} {k : DimensionKey} {i τ : Int}

theorem until_of_le (h : ∀ x ∈ H, x.1.time ≤ τ) (hi : τ ≤ i) : H.until i = H :=
  List.filter_eq_self.2 fun x hx => decide_eq_true (Int.le_trans (h x hx) hi)

theorem until_append {x : Event × Bool} (hi : i < x.1.time) : History.until (H ++ [x]) i = H.until i := by
  have hnone : [x].filter (·.1.time ≤ i) = [] := List.filter_eq_nil_iff.2 fun y hy => by
    rw [List.mem_singleton.1 hy]
    simpa using hi
  rw [History.until, List.filter_append, hnone, List.append_nil]
  rfl

theorem isUp_append {x : Event × Bool} (hi : i < x.1.time) :
    m.isUp t ms cs (H ++ [x]) k i = m.isUp t ms cs H k i := by
  rw [isUp, isUp, until_append hi]

theorem isUp_of_le (h : ∀ x ∈ H, x.1.time ≤ τ) (hi : τ ≤ i) : m.isUp t ms cs H k i =
    (0 < m.plan.depth t ms H k && (m.windows.after ms H).isActive i && m.isGateOn (cs.after ms H)) := by
  rw [isUp, until_of_le h hi]

end Metric

end EventMetrics
