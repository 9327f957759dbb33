import EventMetrics.Proofs.Metric.Booking
import EventMetrics.Proofs.Metric.Intervals
import EventMetrics.Proofs.Metric.Nesting

namespace EventMetrics.Metric

open Instant (last)
open Intervals (Reckons Steady)
open Record (buckets buckets_append gaps gaps_append)

def floor (m : Metric) (τ : Int) : Int := m.grid.current.elim τ (·.start)

theorem floor_of_slot {m : Metric} {slot : Slot} (hs : m.grid.current = some slot) (τ : Int) :
    m.floor τ = slot.start := by
  rw [floor, hs]
  rfl

theorem floor_of_none {m : Metric} (hs : m.grid.current = none) (τ : Int) : m.floor τ = τ := by
  rw [floor, hs]
  rfl

theorem Placed.floor_le {m : Metric} {τ : Int} (h : Placed τ m) : m.floor τ ≤ τ := by
  cases hs : m.grid.current with
  | none => exact Int.le_of_eq (floor_of_none hs τ)
  | some slot => exact floor_of_slot hs τ ▸ (h.slot slot hs).2.1

theorem floor_activate (m : Metric) (cs : Conditions) (τ : Int) : (m.activate cs τ).floor τ = m.floor τ := by
  rw [floor, activate_grid]
  split
  next h =>
    rw [Bool.and_eq_true, Option.isNone_iff_eq_none] at h
    rw [floor_of_none h.2]
    rfl
  · rfl

theorem floor_followWindows (m : Metric) (cs : Conditions) (τ : Int) :
    (m.followWindows cs τ).floor τ = m.floor τ := by
  rcases followWindows_cases m cs τ with hfollow | hfollow | hfollow <;> rw [hfollow]
  · exact floor_activate m cs τ
  · rw [floor, floor, deactivate_grid]

theorem floor_mono (m : Metric) {τ τ' : Int} (hle : τ ≤ τ') : m.floor τ ≤ m.floor τ' := by
  cases hs : m.grid.current with
  | none =>
      rw [floor_of_none hs, floor_of_none hs]
      exact hle
  | some slot => exact Int.le_of_eq ((floor_of_slot hs τ).trans (floor_of_slot hs τ').symm)

/-- The time of a metric at an instant: that since the start of the open bucket is with the intervals,
the rest is in rows. -/
structure Reckoned (t : Timing) (up : DimensionKey → Int → Bool) (s τ : Int) (m : Metric) (rs : List Record) :
    Prop where
  rule : m.plan.rule = .timed t
  since : s ≤ m.floor τ
  intervals : m.intervals.Reckons (m.floor τ) τ fun k => Instant.count (up k) (m.floor τ) τ
  booked : Booked up s (m.floor τ) (buckets rs)
  silent : Silent up (m.floor τ) (gaps (rs ++ m.owed))

theorem onIntervals_timed {m : Metric} {t : Timing} (hrule : m.plan.rule = .timed t)
    (f : Timing → Intervals → Intervals) : m.onIntervals f = { m with intervals := f t m.intervals } := by
  simp only [onIntervals, hrule]

theorem deactivate_intervals {m : Metric} {t : Timing} (hrule : m.plan.rule = .timed t)
    (hsum : t.aggregation = .sum) (time : Int) :
    (m.deactivate time).intervals = m.intervals.regate .sum time fun _ => false := by
  have h := onIntervals_timed (m := { m with active := false }) hrule fun t is =>
    is.regate t.aggregation time fun _ => false
  rw [hsum] at h
  exact congrArg Metric.intervals h

theorem activate_intervals {m : Metric} {t : Timing} (cs : Conditions) (hrule : m.plan.rule = .timed t)
    (hsum : t.aggregation = .sum) (time : Int) : (m.activate cs time).intervals =
      m.intervals.regate .sum time ({ m with active := true }.gateOpen cs) := by
  have h : ∀ n : Metric, n.plan.rule = .timed t → (n.onIntervals fun t is =>
      is.regate t.aggregation time (n.gateOpen cs)).intervals = n.intervals.regate .sum time (n.gateOpen cs) := by
    intro n hn
    rw [onIntervals_timed hn, hsum]
  exact h _ hrule

namespace Reckoned

variable {t : Timing} {up up' : DimensionKey → Int → Bool} {s τ : Int} {m n : Metric} {rs : List Record} {slot : Slot}

theorem congr (h : Reckoned t up s τ m rs) (hup : ∀ k i, i < τ → up' k i = up k i) : Reckoned t up' s τ m rs := by
  have hle := h.intervals.le
  have hcount : (fun k => (Instant.count (up' k) (m.floor τ) τ : Int)) =
      fun k => (Instant.count (up k) (m.floor τ) τ : Int) := by
    funext k
    rw [Instant.count_congr fun i _ hi => hup k i hi]
  refine ⟨h.rule, h.since, ?_, h.booked.congr fun k i hi => hup k i (by omega),
    h.silent.congr fun k i hi => hup k i (by omega)⟩
  rw [hcount]
  exact h.intervals

theorem steady (h : Reckoned t up s τ m rs) (hplan : n.plan = m.plan) (hgrid : n.grid = m.grid)
    (hpending : n.pending = m.pending) (hsteady : Steady τ m.intervals n.intervals) : Reckoned t up s τ n rs := by
  have hfloor : n.floor τ = m.floor τ := by rw [floor, floor, hgrid]
  have howed := owed_congr hpending
  refine ⟨hplan ▸ h.rule, hfloor ▸ h.since, ?_, hfloor ▸ h.booked, hfloor ▸ howed ▸ h.silent⟩
  rw [hfloor]
  exact hsteady _ _ h.intervals

theorem wait_idle (h : Reckoned t up s τ m rs) {τ' : Int} (hle : τ ≤ τ') (hs : m.grid.current = none)
    (hrest : ∀ k, ((m.intervals.opened.get? k).bind (·.since)).isSome = false)
    (hup : ∀ k i, τ ≤ i → i < τ' → up k i = false) : Reckoned t up s τ' m rs := by
  obtain ⟨hrule, hsince, hintervals, hbooked, hsilent⟩ := h
  rw [floor_of_none hs] at hintervals hsince hbooked hsilent
  rw [Instant.counts_self] at hintervals
  refine ⟨hrule, ?_, ?_, ?_, ?_⟩ <;> rw [floor_of_none hs]
  · omega
  · rw [Instant.counts_self]
    exact hintervals.rest (fun _ => rfl) hrest τ'
  · exact hbooked.idle hle hup
  · exact hsilent.extend hle fun g hg => .inl hg

theorem wait_open (h : Reckoned t up s τ m rs) {τ' : Int} (hle : τ ≤ τ') (hs : m.grid.current = some slot)
    (hlength : τ' - slot.start ≤ last) (hup : ∀ k i, τ ≤ i → i < τ' →
      up k i = ((m.intervals.opened.get? k).bind (·.since)).isSome) : Reckoned t up s τ' m rs := by
  obtain ⟨hrule, hsince, hintervals, hbooked, hsilent⟩ := h
  rw [floor_of_slot hs] at hintervals hsince hbooked hsilent
  refine ⟨hrule, ?_, ?_, ?_, ?_⟩ <;> rw [floor_of_slot hs]
  · exact hsince
  · refine hintervals.wait hle hlength fun k => ?_
    rw [Instant.count_add (up k) hintervals.le hle, Int.natCast_add, Instant.count_of_forall hle (hup k)]
  · exact hbooked
  · exact hsilent

theorem wait (h : Reckoned t up s τ m rs) {τ' : Int} (hle : τ ≤ τ') (ht : OnTime τ' m) {c : Bool}
    {depth : DimensionKey → Nat} (hopened : m.intervals.Opened c depth)
    (hup : ∀ k i, τ ≤ i → i < τ' → up k i = (decide (0 < depth k) && c))
    (hclosed : m.grid.current = none → c = false) : Reckoned t up s τ' m rs := by
  cases hs : m.grid.current with
  | none =>
      have hfalse := hclosed hs
      apply h.wait_idle hle hs
      · intro k
        rw [hopened.running_iff, hfalse, Bool.and_false]
      · intro k i hi hi'
        rw [hup k i hi hi', hfalse, Bool.and_false]
  | some slot =>
      apply h.wait_open hle hs
      · -- a bucket is no longer than an instant can be late
        obtain ⟨hfirst, -, hstop, hafter⟩ := ht.slot slot hs
        have hsize := ht.size (ht.bucketed slot hs)
        simp only [Instant.after, Instant.clamp, Instant.first, last] at hafter hfirst hsize ⊢
        omega
      · intro k i hi hi'
        rw [hup k i hi hi', hopened.running_iff]

theorem flush (h : Reckoned t up s τ m rs) (hsum : t.aggregation = .sum) (hs : m.grid.current = some slot)
    (reportEmpty : Bool) :
    let r := (m.accrue τ).flushBucket slot τ reportEmpty
    Booked up s τ (buckets (rs ++ r.records)) ∧ Silent up τ (gaps (rs ++ (r.records ++ r.state.owed))) := by
  intro r
  have hfloor := floor_of_slot hs τ
  obtain ⟨hrule, -, hintervals, hbooked, hsilent⟩ := h
  rw [hfloor] at hintervals hbooked hsilent
  have hcut : m.accrue τ = { m with intervals := m.intervals.accrueTo .sum τ } := by
    rw [accrue, onIntervals_timed hrule, hsum]
  have hrows : (m.accrue τ).rows = (m.intervals.accrueTo .sum τ).rows := by
    rw [hcut]
    simp only [rows, hrule]
  obtain ⟨hvalue, honce⟩ := hintervals.rows
  rw [← hrows] at hvalue honce
  constructor
  · rw [buckets_append, buckets_flushBucket]
    refine hbooked.enter hintervals.le ⟨fun b hb => ?_, fun k => ?_⟩
    · obtain ⟨row, hrow, rfl⟩ := List.mem_map.1 hb
      exact ⟨rfl, rfl, hvalue row hrow⟩
    · rw [List.countP_map]
      refine Eq.trans (honce k) ?_
      simp only [Int.natCast_pos]
  · refine hsilent.extend hintervals.le fun g hg => ?_
    rw [gaps_append, List.mem_append] at hg
    rcases hg with hg | hg
    · left
      rw [gaps_append]
      exact List.mem_append_left _ hg
    · rcases mem_gaps_flushBucket _ hg with hg | ⟨hnil, hstop, hstart⟩
      · left
        rw [hcut] at hg
        rw [gaps_append]
        exact List.mem_append_right _ hg
      · right
        refine ⟨fun k => ?_, hstop, hstart.imp_right ?_⟩
        · have hnone := honce k
          rw [hnil] at hnone
          by_contra hpos
          rw [if_pos (by omega)] at hnone
          cases hnone
        · rintro ⟨g₀, hg₀, hends⟩
          rw [hcut] at hg₀
          rw [gaps_append]
          exact ⟨g₀, List.mem_append_right _ hg₀, hends⟩

end Reckoned

theorem floor_roll {m : Metric} {slot : Slot} (cs : Conditions) (hs : m.grid.current = some slot) :
    (m.roll cs slot).state.floor slot.stop = slot.stop := by
  rw [floor, roll_grid]
  split
  · simp [Grid.roll, hs, Grid.next]
  · simp [Grid.close, hs]

theorem steady_proceed {m : Metric} {t : Timing} (cs : Conditions) (hrule : m.plan.rule = .timed t)
    (hsum : t.aggregation = .sum) (slot : Slot) :
    Steady slot.stop m.intervals (m.proceed cs slot).intervals := by
  rcases proceed_cases m cs slot with hnext | hnext | hnext <;> rw [hnext]
  · exact .refl _ _
  · have hd := deactivate_intervals (m := { m with grid := m.grid.close }) hrule hsum slot.stop
    rw [hd]
    exact Intervals.steady_regate _ _
  · exact .refl _ _

theorem roll_intervals (m : Metric) (cs : Conditions) (slot : Slot) : (m.roll cs slot).state.intervals =
    ((m.accrue slot.stop).clearBucket.proceed cs slot).intervals :=
  (congrArg Metric.intervals (body_roll m cs slot) :)

theorem steady_prepareIntervals {t : Timing} (m : Metric) (cs : Conditions) (ev : Event) (hits : Hits)
    (u : Condition.Update) (hsum : t.aggregation = .sum) :
    Steady ev.time m.intervals (m.prepareIntervals t cs ev hits u).intervals := by
  have hasked : Steady ev.time m.intervals
      (if (m.plan.gate.any fun x => u.isChanged x.condition) then m.regate t cs ev.time else m).intervals := by
    split
    · rw [regate, hsum]
      exact Intervals.steady_regate _ _
    · exact .refl _ _
  simp only [prepareIntervals]
  split
  · rw [hsum]
    exact hasked.trans (Intervals.steady_stopAll _)
  · exact hasked

theorem steady_turnInterval {t : Timing} (m : Metric) (cs : Conditions) (ev : Event) (hits : Hits)
    (hsum : t.aggregation = .sum) :
    Steady ev.time m.intervals (m.turnInterval t cs ev hits).1.intervals := by
  rcases turnInterval_cases m cs ev hits t with ⟨o, -, h⟩ | ⟨key, n, -, -, -, hn, h⟩ | ⟨key, h⟩ <;> rw [h]
  · exact .refl _ _
  · obtain ⟨link, is, -, his, rfl⟩ := (startInterval_eq_ok cs ev).1 hn
    exact Intervals.steady_start his
  · rw [hsum]
    exact Intervals.steady_stop _ _ _

namespace Reckoned

variable {t : Timing} {up : DimensionKey → Int → Bool} {s τ : Int} {m : Metric} {rs : List Record} {slot : Slot}

theorem roll (cs : Conditions) (h : Reckoned t up s slot.stop m rs) (hsum : t.aggregation = .sum)
    (hs : m.grid.current = some slot) :
    Reckoned t up s slot.stop (m.roll cs slot).state (rs ++ (m.roll cs slot).records) := by
  obtain ⟨hbooked, hsilent⟩ := h.flush hsum hs true
  have hfloor := floor_roll cs hs
  have hle := h.intervals.le
  have hcleared : (m.accrue slot.stop).clearBucket.intervals =
      { m.intervals.accrueTo .sum slot.stop with totals := .empty } := by
    rw [accrue, onIntervals_timed h.rule, hsum]
    rfl
  refine ⟨(congrArg MetricPlan.rule (roll_plan m cs slot)).trans h.rule, ?_, ?_, ?_, ?_⟩
  · rw [hfloor]
    exact Int.le_trans h.since hle
  · rw [hfloor, roll_intervals]
    refine steady_proceed cs (t := t) ?_ hsum slot _ _ ?_
    · simpa [clearBucket, accrue] using h.rule
    · rw [hcleared, Instant.counts_self]
      exact Intervals.reckons_clear slot.stop m.intervals
  · rw [hfloor, roll_eq, Emitting.andThen_records, List.append_nil]
    exact hbooked
  · rw [hfloor, roll_eq, Emitting.andThen_records, List.append_nil, Emitting.andThen_state, List.append_assoc, owed,
      proceed_pending, ← owed]
    exact hsilent

theorem deactivate (h : Reckoned t up s τ m rs) (hsum : t.aggregation = .sum) :
    Reckoned t up s τ (m.deactivate τ) rs := by
  refine h.steady (deactivate_plan m τ) (deactivate_grid m τ) (deactivate_pending m τ) ?_
  rw [deactivate_intervals h.rule hsum]
  exact Intervals.steady_regate _ _

theorem activate (cs : Conditions) (h : Reckoned t up s τ m rs) (hsum : t.aggregation = .sum) :
    Reckoned t up s τ (m.activate cs τ) rs := by
  have hfloor : (m.activate cs τ).floor τ = m.floor τ := by
    rw [floor, floor, activate_grid]
    split
    next hopen =>
      rw [Bool.and_eq_true, Option.isNone_iff_eq_none] at hopen
      rw [hopen.2]
      rfl
    next => rfl
  have howed : (m.activate cs τ).owed = m.owed := by
    rw [owed, owed, activate_pending]
  have hintervals : Steady τ m.intervals (m.activate cs τ).intervals := by
    rw [activate_intervals cs h.rule hsum]
    exact Intervals.steady_regate _ _
  refine ⟨by simpa using h.rule, ?_, ?_, ?_, ?_⟩
  · rw [hfloor]
    exact h.since
  · rw [hfloor]
    exact hintervals _ _ h.intervals
  · rw [hfloor]
    exact h.booked
  · rw [hfloor, howed]
    exact h.silent

theorem meet (cs : Conditions) (h : Reckoned t up s τ m rs) (hsum : t.aggregation = .sum) (hp : Placed τ m)
    (hlast : τ < last) : Reckoned t up s τ (m.meet cs τ) (rs ++ (m.rollTo cs τ).records) := by
  have hrolled : Reckoned t up s τ (m.rollTo cs τ).state (rs ++ (m.rollTo cs τ).records) := by
    rcases rollTo_cases cs hp (.inl hlast) with ⟨-, hr⟩ | ⟨slot, hs, rfl, hr⟩
    · rw [hr]
      exact (List.append_nil rs).symm ▸ h
    · rw [hr]
      exact h.roll cs hsum hs
  rw [Metric.meet]
  rcases followWindows_cases (m.rollTo cs τ).state cs τ with hfollow | hfollow | hfollow <;> rw [hfollow]
  · exact hrolled.activate cs hsum
  · exact hrolled.deactivate hsum
  · exact hrolled

theorem measure (cs : Conditions) (ev : Event) (hits : Hits) (u : Condition.Update)
    (h : Reckoned t up s ev.time m rs) (hsum : t.aggregation = .sum) :
    Reckoned t up s ev.time (m.measure cs ev hits u).1.state rs := by
  have hstill := measure_still m cs ev hits u
  refine h.steady (congrArg Metric.plan hstill :) (congrArg Metric.grid hstill :)
    (congrArg Metric.pending hstill :) ?_
  rw [measure_timed cs ev hits u h.rule]
  exact (steady_prepareIntervals m cs ev hits u hsum).trans (steady_turnInterval _ cs ev hits hsum)

end Reckoned

end EventMetrics.Metric
