import EventMetrics.Proofs.Metric.Accrual

namespace EventMetrics

open Definition (DurationAggregation)

namespace Intervals

variable (agg : DurationAggregation) (time : Int) (iv : Interval)

theorem cut_since (next : Option Int) : (cut agg time next iv).1.since = next := by
  cases agg <;> rfl

theorem cut_link (next : Option Int) : (cut agg time next iv).1.link = iv.link := by
  cases agg <;> rfl

theorem cut_maxSparse (hsince : ∀ a, iv.since = some a → a ≤ time) (next : Option Int) :
    (cut .maxSparse time next iv).1 = { iv with since := next, lifetime := iv.lifetime + iv.running time } := by
  refine congrArg (Interval.mk iv.nesting next iv.link) ?_
  cases ha : iv.since with
  | none => rw [Interval.running_of_none ha]
  | some a =>
      rw [Interval.running_of_some ha]
      exact congrArg _ (Int.max_eq_left (Int.sub_nonneg_of_le (hsince a ha)))

theorem regateOne_since (isOpen : Bool) : (regateOne agg time isOpen iv).1.since.isSome = isOpen := by
  cases isOpen <;> cases hs : iv.since <;> simp [regateOne, cut_since, hs]

theorem regateOne_link (isOpen : Bool) : (regateOne agg time isOpen iv).1.link = iv.link := by
  unfold regateOne
  split
  next => rfl
  next => exact cut_link agg time iv none
  next => rfl

def accrueOne : Interval × Int := iv.since.elim (iv, 0) fun _ => cut agg time (some time) iv

theorem accrueTo_eq (is : Intervals) : is.accrueTo agg time = is.sweep fun _ iv => accrueOne agg time iv := by
  refine congrArg is.sweep (funext fun _ => funext fun iv => ?_)
  rw [accrueOne]
  cases iv.since <;> rfl

theorem accrueOne_since : (accrueOne agg time iv).1.since.isSome = iv.since.isSome := by
  cases hs : iv.since <;> simp [accrueOne, cut_since, hs]

theorem accrueOne_link : (accrueOne agg time iv).1.link = iv.link := by
  cases hs : iv.since <;> simp [accrueOne, cut_link, hs]

variable {is is' : Intervals} {nested isOpen : Bool} {limit : Nat} {j : DimensionKey}
  {link : Option DimensionKey} {agg time}

theorem start_cases (h : is.start nested limit time isOpen j link = .ok is') :
    (∃ iv, is.opened.get? j = some iv ∧ is' = { is with
      opened := is.opened.insert j { iv with
        nesting := if nested then iv.nesting + 1 else 1
        since := if isOpen ∧ iv.since.isNone then some time else iv.since } }) ∨
    (is.opened.get? j = none ∧ is' = { is with
      opened := is.opened.insert j { nesting := 1, since := if isOpen then some time else none, link } }) := by
  rw [start] at h
  cases hj : is.opened.get? j with
  | some iv =>
      simp only [hj, Except.ok.injEq] at h
      exact .inl ⟨iv, rfl, h.symm⟩
  | none =>
      simp only [hj] at h
      split at h
      · cases h
      · cases h
        exact .inr ⟨rfl, rfl⟩

theorem stop_cases (is : Intervals) (agg : DurationAggregation) (nested : Bool) (time : Int)
    (j : DimensionKey) :
    (is.opened.get? j = none ∧ is.stop agg nested time j = is) ∨
    ∃ iv, is.opened.get? j = some iv ∧
      (0 < (if nested then iv.nesting - 1 else 0) ∧ is.stop agg nested time j =
          { is with opened := is.opened.insert j { iv with nesting := if nested then iv.nesting - 1 else 0 } } ∨
        (if nested then iv.nesting - 1 else 0) = 0 ∧ is.stop agg nested time j =
          { opened := is.opened.erase j, totals := endOne agg time is.totals j iv }) := by
  rw [stop]
  cases hj : is.opened.get? j with
  | none => exact .inl ⟨rfl, rfl⟩
  | some iv =>
      refine .inr ⟨iv, rfl, ?_⟩
      dsimp only
      generalize (if nested then iv.nesting - 1 else 0) = nesting
      by_cases hn : 0 < nesting
      · exact .inl ⟨hn, if_pos hn⟩
      · exact .inr ⟨by omega, if_neg hn⟩

theorem addSegment_of_nonpos (ts : Totals) (k : DimensionKey) {nanos : Int} (h : nanos ≤ 0) :
    addSegment ts k nanos = ts := if_pos h

theorem foldl_eq_self {α β : Type} {f : α → β → α} {a : α} {l : List β} (h : ∀ b ∈ l, f a b = a) :
    l.foldl f a = a := by
  induction l with
  | nil => rfl
  | cons b l ih =>
      rw [List.foldl_cons, h b List.mem_cons_self]
      exact ih fun c hc => h c (List.mem_cons_of_mem _ hc)

theorem totals_sweep {f : DimensionKey → Interval → Interval × Int}
    (h : ∀ e ∈ is.opened.entries, (f e.1 e.2).2 ≤ 0) : (is.sweep f).totals = is.totals :=
  foldl_eq_self fun e he => addSegment_of_nonpos is.totals e.1 (h e he)

end Intervals

namespace Metric

variable {m : Metric} {t : Timing} {slot : Slot}

theorem isBucketed_of_timed (hrule : m.plan.rule = .timed t) : m.plan.isBucketed = true := by
  rw [MetricPlan.isBucketed, hrule]

theorem deactivate_timed (hrule : m.plan.rule = .timed t) (time : Int) :
    (m.deactivate time).intervals = m.intervals.regate t.aggregation time fun _ => false :=
  congrArg Metric.intervals (onIntervals_timed (m := { m with active := false }) hrule _)

theorem gateOpen_congr {m n : Metric} (hplan : n.plan = m.plan) (hactive : n.active = m.active)
    (cs : Conditions) (link : Option DimensionKey) : n.gateOpen cs link = m.gateOpen cs link := by
  rw [gateOpen, gateOpen, hplan, hactive]

theorem activate_timed (hrule : m.plan.rule = .timed t) (cs : Conditions) (time : Int) :
    (m.activate cs time).intervals =
      m.intervals.regate t.aggregation time ((m.activate cs time).gateOpen cs) := by
  have hasked : ∀ n : Metric, n.plan = m.plan → n.active = true → n.intervals = m.intervals →
      (n.onIntervals fun t is => is.regate t.aggregation time (n.gateOpen cs)).intervals =
        m.intervals.regate t.aggregation time ((m.activate cs time).gateOpen cs) := by
    intro n hplan hactive hintervals
    have hgate : n.gateOpen cs = (m.activate cs time).gateOpen cs :=
      funext (gateOpen_congr (by simp [hplan]) (by simp [hactive]) cs)
    rw [onIntervals_timed (hplan ▸ hrule), hintervals, hgate]
  exact hasked _ rfl rfl rfl

theorem accrue_timed (hrule : m.plan.rule = .timed t) (time : Int) :
    (m.accrue time).intervals = m.intervals.accrueTo t.aggregation time :=
  congrArg Metric.intervals (onIntervals_timed hrule _)

theorem settle_timed (hrule : m.plan.rule = .timed t) (time : Int) :
    (m.settle time).intervals = m.intervals.settle t.aggregation time :=
  congrArg Metric.intervals (onIntervals_timed hrule _)

theorem proceed_timed (hrule : m.plan.rule = .timed t) (cs : Conditions) (slot : Slot) :
    (m.proceed cs slot).intervals = if m.active && !m.windows.isActive slot.stop then
      m.intervals.regate t.aggregation slot.stop fun _ => false else m.intervals := by
  rw [proceed]
  cases ha : m.active <;> cases hw : m.windows.isActive slot.stop
  · rfl
  · rfl
  · exact deactivate_timed (m := { m with grid := m.grid.close }) hrule slot.stop
  · rfl

theorem roll_timed (hrule : m.plan.rule = .timed t) (cs : Conditions) (slot : Slot) :
    (m.roll cs slot).state.intervals = if m.active && !m.windows.isActive slot.stop then
        { m.intervals.accrueTo t.aggregation slot.stop with totals := .empty }.regate t.aggregation slot.stop
          fun _ => false
      else { m.intervals.accrueTo t.aggregation slot.stop with totals := .empty } := by
  have hcut : (m.accrue slot.stop).clearBucket.intervals =
      { m.intervals.accrueTo t.aggregation slot.stop with totals := .empty } := by
    rw [← accrue_timed hrule]
    rfl
  have hactive : (m.accrue slot.stop).clearBucket.active = m.active := by simp [clearBucket, accrue]
  have hwindows : (m.accrue slot.stop).clearBucket.windows = m.windows := by simp [clearBucket, accrue]
  rw [roll_intervals, proceed_timed (t := t) (by simpa [clearBucket, accrue] using hrule), hcut, hactive, hwindows]

end Metric

end EventMetrics
