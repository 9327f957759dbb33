import EventMetrics.Proofs.Keys
import EventMetrics.Proofs.Metric.Tidy
import EventMetrics.Proofs.Metric.Sampling

namespace EventMetrics

open Definition (DurationAggregation)

namespace Intervals

variable {is is' : Intervals} {agg : DurationAggregation} {nested isOpen : Bool} {limit : Nat} {time nanos : Int}
  {k : DimensionKey} {link : Option DimensionKey} {iv : Interval} {ts : Totals}

/-- Keys with time in the open bucket, but without an open interval. -/
def released (is : Intervals) : Finset String := is.totals.keys \ is.opened.keys

theorem keys_addSegment : (addSegment ts k nanos).keys ⊆ insert (Keyed.text k) ts.keys := by
  rw [addSegment]
  split
  · exact Finset.subset_insert _ _
  · rw [Table.keys_insert]

theorem keys_addEnded : (addEnded ts k nanos).keys ⊆ insert (Keyed.text k) ts.keys := by
  rw [addEnded]
  split
  · exact Finset.subset_insert _ _
  · rw [Table.keys_insert]

theorem keys_endOne : (endOne agg time ts k iv).keys ⊆ insert (Keyed.text k) ts.keys := by
  cases agg with
  | sum => exact keys_addSegment
  | maxSparse =>
      refine keys_addEnded.trans (Finset.insert_subset (Finset.mem_insert_self _ _) keys_addSegment)

/-- What changes open intervals without ending any credits none but their keys. -/
structure Narrows (is is' : Intervals) : Prop where
  opened : is'.opened.keys = is.opened.keys
  released : is'.released ⊆ is.released

theorem Narrows.refl (is : Intervals) : Narrows is is := ⟨rfl, Finset.Subset.refl _⟩

theorem Narrows.trans {is'' : Intervals} (h : Narrows is is') (h' : Narrows is' is'') : Narrows is is'' :=
  ⟨h'.opened.trans h.opened, h'.released.trans h.released⟩

theorem Narrows.credit (hopened : is'.opened.keys = is.opened.keys)
    (htotals : is'.totals.keys ⊆ is.opened.keys ∪ is.totals.keys) : Narrows is is' where
  opened := hopened
  released := by
    rw [Intervals.released, Intervals.released, hopened]
    exact (Finset.sdiff_subset_sdiff htotals (Finset.Subset.refl _)).trans (Finset.union_sdiff_left ..).subset

theorem narrows_sweep (is : Intervals) (f : DimensionKey → Interval → Interval × Int) : Narrows is (is.sweep f) :=
  .credit (Table.keys_mapValues _ _) (Table.keys_foldl (fun _ _ => keys_addSegment) _ _)

theorem narrows_regate (is : Intervals) (agg : DurationAggregation) (time : Int)
    (gate : Option DimensionKey → Bool) : Narrows is (is.regate agg time gate) := narrows_sweep is _

theorem narrows_accrueTo (is : Intervals) (agg : DurationAggregation) (time : Int) :
    Narrows is (is.accrueTo agg time) := narrows_sweep is _

theorem narrows_settle (is : Intervals) (agg : DurationAggregation) (time : Int) : Narrows is (is.settle agg time) := by
  have hcut := is.narrows_accrueTo agg time
  cases agg with
  | sum => exact hcut
  | maxSparse => exact hcut.trans (.credit rfl (Table.keys_foldl (fun _ _ => keys_addEnded) _ _))

theorem start_room (h : is.start nested limit time isOpen k link = .ok is') (hroom : is.opened.keys.card ≤ limit) :
    is'.opened.keys.card ≤ limit ∧ is'.released ⊆ is.released := by
  have hmore : ∀ iv : Interval, ({ is with opened := is.opened.insert k iv } : Intervals).released ⊆ is.released := by
    intro iv
    rw [released, Table.keys_insert]
    exact Finset.sdiff_subset_sdiff (Finset.Subset.refl _) (Finset.subset_insert _ _)
  rw [start] at h
  split at h
  next iv hk =>
    cases h
    exact ⟨Table.card_keys_insert_le hroom (.inl (by simp [hk])) _, hmore _⟩
  next =>
    split at h
    next => cases h
    next hsize =>
      cases h
      exact ⟨Table.card_keys_insert_le hroom (.inr hsize) _, hmore _⟩

theorem start_refused {r : DropReason} (h : is.start nested limit time isOpen k link = .error r) :
    Keyed.text k ∉ is.opened.keys ∧ limit ≤ is.opened.keys.card := by
  rw [start] at h
  split at h
  next => cases h
  next hk =>
    split at h
    next hsize => exact Table.full_of_size hk hsize
    next => cases h

theorem stop_of_absent (h : is.opened.keys = ∅) (agg : DurationAggregation) (nested : Bool) (time : Int)
    (k : DimensionKey) : is.stop agg nested time k = is := by
  have hk : is.opened.get? k = none := by
    by_contra hne
    simpa [h] using Table.text_mem_keys.2 hne
  rw [stop, hk]

theorem stop_room (is : Intervals) (agg : DurationAggregation) (nested : Bool) (time : Int) (k : DimensionKey) :
    (is.stop agg nested time k).opened.keys ⊆ is.opened.keys ∧
      (is.stop agg nested time k).released.card ≤ is.released.card + 1 := by
  rcases is.stop_cases agg nested time k with ⟨-, h⟩ | ⟨iv, hk, ⟨-, h⟩ | ⟨-, h⟩⟩ <;> rw [h]
  · exact ⟨Finset.Subset.refl _, Nat.le_succ _⟩
  · have hsame : ∀ iv, (is.opened.insert k iv).keys = is.opened.keys := fun iv => by
      rw [Table.keys_insert, Finset.insert_eq_of_mem (Table.text_mem_keys.2 (by simp [hk]))]
    rw [released, hsame]
    exact ⟨Finset.Subset.refl _, Nat.le_succ _⟩
  · rw [released, Table.keys_erase]
    have hcard := Finset.card_insert_le (Keyed.text k) is.released
    refine ⟨Finset.erase_subset _ _, (Finset.card_le_card fun x hx => ?_).trans hcard⟩
    obtain ⟨htotal, hopen⟩ := Finset.mem_sdiff.1 hx
    by_cases hxk : x = Keyed.text k
    · exact hxk ▸ Finset.mem_insert_self _ _
    · refine Finset.mem_insert_of_mem (Finset.mem_sdiff.2 ⟨?_, fun hmem => hopen (Finset.mem_erase.2 ⟨hxk, hmem⟩)⟩)
      exact (Finset.mem_insert.1 (keys_endOne htotal)).resolve_left hxk

theorem stopAll_room (is : Intervals) (agg : DurationAggregation) (time : Int) :
    (is.stopAll agg time).opened.keys = ∅ ∧
      (is.stopAll agg time).released.card ≤ is.released.card + is.opened.keys.card := by
  refine ⟨rfl, ?_⟩
  have hcredited : (is.stopAll agg time).released ⊆ is.opened.keys ∪ is.totals.keys :=
    Finset.sdiff_subset.trans (Table.keys_foldl (fun _ _ => keys_endOne) _ _)
  refine (Finset.card_le_card hcredited).trans_eq ?_
  rw [Finset.union_comm, released, Finset.card_sdiff_add_card]

theorem rows_length_le (is : Intervals) : is.rows.length ≤ is.opened.keys.card + is.released.card := by
  have htotals : is.rows.length ≤ is.totals.keys.card := by
    rw [rows, List.length_map, Table.card_keys]
    exact List.length_filter_le _ _
  refine htotals.trans ?_
  rw [Nat.add_comm]
  exact Finset.card_le_card_sdiff_add_card

end Intervals

namespace Accumulators

variable {as as' : Accumulators} {limit : Nat} {k : DimensionKey} {q : Quantity}

theorem add_room (h : as.add limit k q = .ok as') (hroom : as.keys.card ≤ limit) : as'.keys.card ≤ limit := by
  obtain ⟨hk, rfl⟩ := add_eq_ok.1 h
  exact Table.card_keys_insert_le hroom (hk.imp_right Nat.not_le.2) _

theorem add_refused {r : DropReason} (h : as.add limit k q = .error r) :
    Keyed.text k ∉ as.keys ∧ limit ≤ as.keys.card := by
  have hnot := (add_eq_error.1 h).1
  rw [not_or, not_not, Nat.not_lt] at hnot
  exact Table.full_of_size hnot.1 hnot.2

end Accumulators

/-- How many keys an event may release. -/
def MeasureRule.releases (r : MeasureRule) (limit : Nat) (hits : Hits) : Nat :=
  match r with
  | .timed t => if t.stopAll.any hits.get then limit else if hits.get t.stop then 1 else 0
  | _ => 0

namespace Metric

variable {m n : Metric} {cs : Conditions} {ev : Event} {hits : Hits} {u : Condition.Update} {time : Int} {slot : Slot}
  {t : Timing}

def tracked (m : Metric) : Finset String :=
  match m.plan.rule with
  | .sampled _ _ => m.samples.keys
  | .timed _ => m.intervals.opened.keys
  | .passed _ => ∅

def released (m : Metric) : Finset String :=
  match m.plan.rule with
  | .timed _ => m.intervals.released
  | _ => ∅

theorem tracked_timed (hrule : m.plan.rule = .timed t) : m.tracked = m.intervals.opened.keys := by
  rw [tracked, hrule]

theorem released_timed (hrule : m.plan.rule = .timed t) : m.released = m.intervals.released := by
  rw [released, hrule]

theorem tracked_sampled {what : Nat} {reading : Reading} (hrule : m.plan.rule = .sampled what reading) :
    m.tracked = m.samples.keys := by rw [tracked, hrule]

theorem released_of_not_timed (h : ∀ t, m.plan.rule ≠ .timed t) : m.released = ∅ := by
  rw [released]
  split
  next t ht => exact absurd ht (h t)
  next => rfl

theorem rows_length_le (m : Metric) : m.rows.length ≤ m.tracked.card + m.released.card := by
  cases hrule : m.plan.rule with
  | sampled what reading =>
      rw [Sampled.rows_of_sampled hrule, tracked_sampled hrule, Table.card_keys]
      exact Nat.le_add_right_of_le (List.length_map _).le
  | timed t =>
      rw [tracked_timed hrule, released_timed hrule]
      simp only [rows, hrule]
      exact m.intervals.rows_length_le
  | passed what => simp [rows, hrule]

structure Narrows (m n : Metric) : Prop where
  plan : n.plan = m.plan
  tracked : n.tracked ⊆ m.tracked
  released : n.released ⊆ m.released

namespace Narrows

theorem refl (m : Metric) : Narrows m m := ⟨rfl, Finset.Subset.refl _, Finset.Subset.refl _⟩

theorem trans {k : Metric} (h : Narrows m n) (h' : Narrows n k) : Narrows m k :=
  ⟨h'.plan.trans h.plan, h'.tracked.trans h.tracked, h'.released.trans h.released⟩

theorem of_eq (hplan : n.plan = m.plan) (hsamples : n.samples = m.samples) (hintervals : n.intervals = m.intervals) :
    Narrows m n := by
  refine ⟨hplan, ?_, ?_⟩
  · rw [Metric.tracked, Metric.tracked, hplan, hsamples, hintervals]
  · rw [Metric.released, Metric.released, hplan, hintervals]

theorem of_body (h : n.body = m.body) : Narrows m n :=
  .of_eq (congrArg Metric.plan h :) (congrArg Metric.samples h :) (congrArg Metric.intervals h :)

theorem room (h : Narrows m n) (hroom : m.tracked.card ≤ m.plan.maxDimensions) :
    n.tracked.card ≤ n.plan.maxDimensions :=
  h.plan ▸ (Finset.card_le_card h.tracked).trans hroom

theorem onIntervals {f : Timing → Intervals → Intervals} (hf : ∀ t is, Intervals.Narrows is (f t is)) (m : Metric) :
    Narrows m (m.onIntervals f) := by
  cases hrule : m.plan.rule with
  | timed t =>
      have hn := hf t m.intervals
      have hrule' : ({ m with intervals := f t m.intervals } : Metric).plan.rule = .timed t := hrule
      rw [onIntervals_timed hrule]
      refine ⟨rfl, ?_, ?_⟩
      · rw [tracked_timed hrule', tracked_timed hrule, hn.opened]
      · rw [released_timed hrule', released_timed hrule]
        exact hn.released
  | sampled what reading =>
      rw [Metric.onIntervals, hrule]
      exact refl m
  | passed what =>
      rw [Metric.onIntervals, hrule]
      exact refl m

theorem accrue (m : Metric) (time : Int) : Narrows m (m.accrue time) :=
  onIntervals (fun t is => is.narrows_accrueTo t.aggregation time) m

theorem settle (m : Metric) (time : Int) : Narrows m (m.settle time) :=
  onIntervals (fun t is => is.narrows_settle t.aggregation time) m

theorem deactivate (m : Metric) (time : Int) : Narrows m (m.deactivate time) := by
  have hsame : Narrows m { m with active := false } := of_eq rfl rfl rfl
  exact hsame.trans (onIntervals (fun t is => is.narrows_regate t.aggregation time _) _)

theorem activate (m : Metric) (cs : Conditions) (time : Int) : Narrows m (m.activate cs time) := by
  unfold Metric.activate
  dsimp only
  refine Narrows.trans ?_ (onIntervals (fun t is => is.narrows_regate t.aggregation time _) _)
  exact of_eq rfl rfl rfl

theorem start (m : Metric) (cs : Conditions) (time : Int) : Narrows m (m.start cs time) := by
  rcases start_cases m cs time with h | h <;> rw [h]
  · exact activate m cs time
  · exact refl m

theorem followWindows (m : Metric) (cs : Conditions) (time : Int) : Narrows m (m.followWindows cs time) := by
  rcases followWindows_cases m cs time with h | h | h <;> rw [h]
  · exact activate m cs time
  · exact deactivate m time
  · exact refl m

theorem proceed (m : Metric) (cs : Conditions) (slot : Slot) : Narrows m (m.proceed cs slot) := by
  rcases proceed_cases m cs slot with h | h | h <;> rw [h]
  · exact of_eq rfl rfl rfl
  · have hsame : Narrows m { m with grid := m.grid.close } := of_eq rfl rfl rfl
    exact hsame.trans (deactivate _ slot.stop)
  · exact of_eq rfl rfl rfl

theorem note (m : Metric) (o : Outcome) : Narrows m (m.note o) := by
  cases o <;> exact of_eq rfl rfl rfl

theorem flushPending (m : Metric) : Narrows m m.flushPending.state := of_body (body_flushPending m)

end Narrows

theorem narrows_clearBucket (m : Metric) : Narrows m m.clearBucket ∧ m.clearBucket.released = ∅ := by
  have hnone : m.clearBucket.released = ∅ := by
    by_cases htimed : ∃ t, m.plan.rule = .timed t
    · obtain ⟨t, hrule⟩ := htimed
      rw [released_timed (m := m.clearBucket) hrule]
      exact Finset.empty_sdiff _
    · exact released_of_not_timed fun t hrule => htimed ⟨t, hrule⟩
  have htracked : m.clearBucket.tracked ⊆ m.tracked := by
    cases hrule : m.plan.rule with
    | sampled what reading =>
        rw [tracked_sampled (m := m.clearBucket) hrule]
        exact Finset.empty_subset _
    | timed t =>
        rw [tracked_timed (m := m.clearBucket) hrule, tracked_timed hrule]
        exact Finset.Subset.refl _
    | passed what => simp [tracked, clearBucket, hrule]
  exact ⟨⟨rfl, htracked, hnone ▸ Finset.empty_subset _⟩, hnone⟩

theorem narrows_roll (m : Metric) (cs : Conditions) (slot : Slot) :
    Narrows m (m.roll cs slot).state ∧ (m.roll cs slot).state.released = ∅ := by
  obtain ⟨hclear, hnone⟩ := narrows_clearBucket (m.accrue slot.stop)
  have hnext := (Narrows.proceed (m.accrue slot.stop).clearBucket cs slot).trans (.of_body (body_roll m cs slot))
  refine ⟨(Narrows.accrue m slot.stop).trans (hclear.trans hnext), ?_⟩
  exact Finset.subset_empty.1 (hnone ▸ hnext.released)

theorem narrows_closeAt (m : Metric) (now : Int) : Narrows m (m.closeAt now).state := by
  cases hs : m.grid.current with
  | none =>
      rw [closeAt_of_none hs]
      exact .refl m
  | some slot =>
      have hclear := (Narrows.settle m (max now slot.start)).trans (narrows_clearBucket _).1
      exact hclear.trans (.of_eq (congrArg Metric.plan (body_closeAt m hs now) :)
        (congrArg Metric.samples (body_closeAt m hs now) :) (congrArg Metric.intervals (body_closeAt m hs now) :))

theorem narrows_advance (m : Metric) (cs : Conditions) (limit : Int) (inclusive : Bool) :
    Narrows m (m.advance cs limit inclusive).state :=
  advance_induction (P := fun n _ => Narrows m n) (fun n _ slot h _ _ _ => h.trans (narrows_roll n cs slot).1)
    (fun n _ due h _ _ _ => h.trans (.deactivate n due)) m [] (.refl m)

theorem narrows_meet (m : Metric) (cs : Conditions) (time : Int) : Narrows m (m.meet cs time) :=
  (rollTo_induction (P := fun n _ => Narrows m n) (fun n _ slot h _ _ => h.trans (narrows_roll n cs slot).1) m []
    (.refl m)).trans (.followWindows _ cs time)

end Metric

end EventMetrics
