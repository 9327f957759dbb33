import EventMetrics.Proofs.Metric.Samples

namespace EventMetrics

open Instant (last)

def Sample.of? (p : MetricPlan) (reading : Reading) (ev : Event) : Option Sample :=
  match DimensionKey.extract? ev p.dimensions, reading.sample ev with
  | some key, .ok quantity => some { time := ev.time, key, quantity }
  | _, _ => none

/-- The samples that a metric accepted, in the order of their arrival. -/
def MetricPlan.samples (p : MetricPlan) (reading : Reading) (H : History) : List Sample :=
  H.filterMap fun s => if s.2 then Sample.of? p reading s.1 else none

theorem MetricPlan.samples_concat (p : MetricPlan) (reading : Reading) (H : History) (ev : Event) (b : Bool) :
    p.samples reading (H ++ [(ev, b)]) =
      p.samples reading H ++ ((if b then Sample.of? p reading ev else none) : Option Sample).toList := by
  rw [samples, List.filterMap_append]
  congr 1

namespace Metric

open Record (buckets buckets_append)

/-- The samples of a metric at an instant: those of the open bucket are gathered, the others are in
their rows. -/
structure Sampled (p : MetricPlan) (size : Int) (reading : Reading) (A : List Sample) (τ : Int) (m : Metric)
    (bs : List Record.Bucket) : Prop where
  plan : m.plan = p
  gridSize : m.grid.size = size
  opened : ∀ slot, m.grid.current = some slot → (∀ a ∈ A, a.time < slot.stop) ∧
    m.samples.Holds (A.filter fun a => slot.start ≤ a.time) ∧ Filed reading size A slot.start bs
  closed : m.grid.current = none →
    (∀ a ∈ A, a.time < τ) ∧ m.samples = .empty ∧ Filed reading size A τ bs

namespace Sampled

variable {p : MetricPlan} {size : Int} {what : Nat} {reading : Reading} {A : List Sample} {τ : Int}
  {m n : Metric} {bs : List Record.Bucket} {slot : Slot}

theorem congr (h : Sampled p size reading A τ m bs) (hplan : n.plan = m.plan) (hgrid : n.grid = m.grid)
    (hsamples : n.samples = m.samples) : Sampled p size reading A τ n bs :=
  ⟨hplan ▸ h.plan, hgrid ▸ h.gridSize, hgrid ▸ hsamples ▸ h.opened, hgrid ▸ hsamples ▸ h.closed⟩

theorem wait (h : Sampled p size reading A τ m bs) {τ' : Int} (hle : τ ≤ τ') : Sampled p size reading A τ' m bs where
  plan := h.plan
  gridSize := h.gridSize
  opened := h.opened
  closed hs := by
    obtain ⟨hA, hsamples, hfiled⟩ := h.closed hs
    exact ⟨fun a ha => Int.lt_of_lt_of_le (hA a ha) hle, hsamples, hfiled.reach hA hle⟩

theorem rows_of_sampled (hrule : m.plan.rule = .sampled what reading) : m.rows = m.samples.rows reading := by
  simp only [rows, hrule]

theorem file (h : Sampled p size reading A τ m bs) (hp : Placed τ m) (hrule : p.rule = .sampled what reading)
    (hs : m.grid.current = some slot) (stop : Int) :
    Filed reading size A slot.stop (bs ++ m.rows.map (m.toBucket slot stop)) := by
  obtain ⟨hA, hholds, hfiled⟩ := h.opened slot hs
  obtain ⟨hfirst, hstart, hend, hstop⟩ := hp.slot slot hs
  rw [rows_of_sampled (h.plan ▸ hrule)]
  rw [h.gridSize] at hstop
  exact hfiled.close (h.gridSize ▸ (hp.size (hp.bucketed slot hs)).1) hfirst (Int.le_trans hstart hend) hstop
    hholds hA m stop

theorem onIntervals_of_sampled (hrule : m.plan.rule = .sampled what reading)
    (f : Timing → Intervals → Intervals) : m.onIntervals f = m := by
  simp only [onIntervals, hrule]

theorem roll (cs : Conditions) (h : Sampled p size reading A slot.stop m bs) (hp : Placed slot.stop m)
    (hrule : p.rule = .sampled what reading) (hs : m.grid.current = some slot) :
    Sampled p size reading A slot.stop (m.roll cs slot).state (bs ++ buckets (m.roll cs slot).records) := by
  have hfiled := h.file hp hrule hs slot.stop
  obtain ⟨hA, -, -⟩ := h.opened slot hs
  have hgrid := roll_grid m cs slot
  rw [buckets_roll, accrue, onIntervals_of_sampled (h.plan ▸ hrule)]
  have hnone : A.filter (fun a => slot.stop ≤ a.time) = [] :=
    List.filter_eq_nil_iff.2 fun a ha => by simpa using hA a ha
  refine ⟨(roll_plan m cs slot).trans h.plan, (roll_size m cs slot).trans h.gridSize, fun next hnext => ?_, fun _ => ?_⟩
  · rw [roll_samples]
    have hplaced := (hp.roll cs hs).slot next hnext
    split at hgrid
    next =>
      rw [Grid.roll, hs] at hgrid
      rw [hgrid] at hnext
      cases hnext
      refine ⟨fun a ha => Int.lt_of_lt_of_le (hA a ha) hplaced.2.2.1, ?_, hfiled⟩
      rw [Grid.next, hnone]
      exact Accumulators.holds_empty
    next => simp [hgrid, Grid.close, hs] at hnext
  · rw [roll_samples]
    exact ⟨hA, rfl, hfiled⟩

theorem deactivate (h : Sampled p size reading A τ m bs) (time : Int) :
    Sampled p size reading A τ (m.deactivate time) bs :=
  h.congr (deactivate_plan m time) (deactivate_grid m time) (deactivate_samples m time)

theorem activate (cs : Conditions) (h : Sampled p size reading A τ m bs) (hp : Placed τ m) :
    Sampled p size reading A τ (m.activate cs τ) bs := by
  have hsamples := activate_samples m cs τ
  have hplan := activate_plan m cs τ
  have hgrid := activate_grid m cs τ
  split at hgrid
  next hopen =>
    rw [Bool.and_eq_true, Option.isNone_iff_eq_none] at hopen
    obtain ⟨hA, hempty, hfiled⟩ := h.closed hopen.2
    have hnone : A.filter (fun a => τ ≤ a.time) = [] :=
      List.filter_eq_nil_iff.2 fun a ha => by simpa using hA a ha
    refine ⟨hplan ▸ h.plan, hgrid ▸ h.gridSize, fun slot hs => ?_, by simp [hgrid, Grid.openAt]⟩
    have hplaced := (hp.activate cs).slot slot hs
    rw [hgrid] at hs
    cases hs
    refine ⟨fun a ha => Int.lt_of_lt_of_le (hA a ha) hplaced.2.2.1, ?_, hfiled⟩
    rw [hsamples, hempty, hnone]
    exact Accumulators.holds_empty
  next => exact h.congr hplan hgrid hsamples

theorem meet (cs : Conditions) (h : Sampled p size reading A τ m bs) (hp : Placed τ m)
    (hrule : p.rule = .sampled what reading) (hlast : τ < last) :
    Sampled p size reading A τ (m.meet cs τ) (bs ++ buckets (m.rollTo cs τ).records) := by
  have hrolled : Sampled p size reading A τ (m.rollTo cs τ).state (bs ++ buckets (m.rollTo cs τ).records) := by
    rcases rollTo_cases cs hp (.inl hlast) with ⟨-, hr⟩ | ⟨slot, hs, rfl, hr⟩
    · simpa [hr, buckets] using h
    · rw [hr]
      exact h.roll cs hp hrule hs
  rw [Metric.meet]
  rcases followWindows_cases (m.rollTo cs τ).state cs τ with hfollow | hfollow | hfollow <;> rw [hfollow]
  · exact hrolled.activate cs (placed_rollTo cs hp (.inl hlast)).1
  · exact hrolled.deactivate τ
  · exact hrolled

theorem take (h : Sampled p size reading A τ m bs) (ht : OnTime τ m) (hq : Quiet τ m) (hlast : τ < last)
    (hrule : p.rule = .sampled what reading) (ha : m.active = true) {a : Sample} (htime : a.time = τ)
    {ss : Accumulators} (hadd : m.samples.add m.plan.maxDimensions a.key a.quantity = .ok ss) :
    Sampled p size reading (A ++ [a]) τ { m with samples := ss } bs := by
  have hb : m.plan.isBucketed = true := by simp [MetricPlan.isBucketed, h.plan, hrule]
  refine ⟨h.plan, h.gridSize, fun slot hs => ?_, fun hs => absurd hs (ht.covered ha hb)⟩
  obtain ⟨hA, hholds, hfiled⟩ := h.opened slot hs
  obtain ⟨-, hstart, hle, -⟩ := ht.slot slot hs
  have hstop : τ < slot.stop := by
    rcases hx : m.expiry with _ | x
    · exact hq _ (by rw [nextDeadline_eq, hs, hx])
    · have := hq (min slot.stop x) (by rw [nextDeadline_eq, hs, hx])
      omega
  refine ⟨fun c hc => ?_, ?_, hfiled.accept (h.gridSize ▸ (ht.size hb).1) (by omega) (by omega)⟩
  · rcases List.mem_append.1 hc with hc | hc
    · exact hA c hc
    · rw [List.mem_singleton.1 hc]
      omega
  · have hnew : (A ++ [a]).filter (fun a => slot.start ≤ a.time) =
        A.filter (fun a => slot.start ≤ a.time) ++ [a] := by
      simp [List.filter_append, htime, hstart]
    rw [hnew]
    exact hholds.add hadd

theorem judge_eq_take {cs : Conditions} {e : Event} {key : DimensionKey} (h : m.judge cs e = .take key) :
    m.active = true ∧ DimensionKey.extract? e m.plan.dimensions = some key := by
  rw [judge] at h
  split at h
  · cases h
  next ha =>
    refine ⟨by simpa using ha, ?_⟩
    split at h
    · cases h
    next key' hkey =>
      rw [hkey]
      split at h
      · cases h
      · cases h
      · split at h
        · cases h
        · split at h <;> cases h
          rfl

theorem measure (cs : Conditions) (ev : Event) (hits : Hits) (u : Condition.Update)
    (h : Sampled p size reading A ev.time m bs) (ht : OnTime ev.time m) (hq : Quiet ev.time m)
    (hrule : p.rule = .sampled what reading) (hlast : ev.time < last) :
    ∃ new : List Sample, Sampled p size reading (A ++ new) ev.time (m.measure cs ev hits u).1.state bs ∧
      new = ((if (m.measure cs ev hits u).2.isAccepted then Sample.of? p reading ev else none) : Option
        Sample).toList ∧
      new.length = if (m.measure cs ev hits u).2.isAccepted then 1 else 0 := by
  rcases measure_sampled cs ev hits u (h.plan ▸ hrule) with
    ⟨n, outcome, he, ho⟩ | ⟨key, q, ss, hj, hsample, hadd, he⟩
  · have hnot : outcome.isAccepted = false := by cases outcome <;> simp_all [Outcome.isAccepted]
    rw [he]
    refine ⟨[], ?_, by simp [hnot], by simp [hnot]⟩
    rw [List.append_nil]
    exact h.congr rfl rfl rfl
  · obtain ⟨ha, hkey⟩ := judge_eq_take hj
    rw [he]
    have hof : Sample.of? p reading ev = some ⟨ev.time, key, q⟩ := by
      rw [h.plan] at hkey
      simp only [Sample.of?, hkey, hsample]
    refine ⟨[⟨ev.time, key, q⟩], ?_, by simp [Outcome.isAccepted, hof], by simp [Outcome.isAccepted]⟩
    exact h.take ht hq hlast hrule ha rfl hadd

theorem note (h : Sampled p size reading A τ m bs) (o : Outcome) :
    Sampled p size reading A τ (m.note o) bs := by
  cases o <;> exact h.congr rfl rfl rfl

theorem flushPending (h : Sampled p size reading A τ m bs) :
    Sampled p size reading A τ m.flushPending.state bs := by
  have hbody := body_flushPending m
  exact h.congr (congrArg Metric.plan hbody :) (congrArg Metric.grid hbody :)
    (congrArg Metric.samples hbody :)

theorem see (cs : Conditions) (ev : Event) (hits : Hits) (h : Sampled p size reading A ev.time m bs)
    (ht : OnTime ev.time m) (hrule : p.rule = .sampled what reading) (hlast : ev.time < last) :
    ∃ new : List Sample, Sampled p size reading (A ++ new) ev.time (m.see cs ev hits).1.state
        (bs ++ buckets (m.see cs ev hits).1.records) ∧
      new = ((if (m.see cs ev hits).2.isAccepted then Sample.of? p reading ev else none) : Option
        Sample).toList ∧
      new.length = if (m.see cs ev hits).2.isAccepted then 1 else 0 := by
  have hplaced := ht.toPlaced.watch ev.time hits
  have hwatch : Sampled p size reading A ev.time (m.watch ev.time hits) bs := h.congr rfl rfl rfl
  obtain ⟨hon, hquiet⟩ := onTime_meet (cs.onEvent ev hits).1 hplaced (.inl hlast)
  obtain ⟨new, hnew, hsamples, hlength⟩ := (hwatch.meet (cs.onEvent ev hits).1 hplaced hrule hlast).measure
    (cs.onEvent ev hits).1 ev hits (cs.onEvent ev hits).2 hon hquiet hrule hlast
  rw [Metric.see, onEvent_eq, buckets_append, buckets_measure, List.append_nil]
  exact ⟨new, hnew.note _, hsamples, hlength⟩

end Sampled

variable {ms : Matchers} {cs₀ cs : Conditions} {m₀ m : Metric} {s τ : Int} {H : History} {rs : List Record}
  {what : Nat} {reading : Reading}

/-- At every instant of its life a metric has its samples where they belong. -/
theorem Life.sampled (hm : Fresh m₀) (hrule : m₀.plan.rule = .sampled what reading) (hs : Instant.InRange s)
    (h : Life ms cs₀ m₀ s H cs τ m rs) :
    OnTime τ m ∧ Sampled m₀.plan m₀.grid.size reading (m₀.plan.samples reading H) τ m (buckets rs) ∧
      (m₀.plan.samples reading H).length = H.countP (·.2) := by
  refine induction (P := fun H _ τ m rs =>
    Sampled m₀.plan m₀.grid.size reading (m₀.plan.samples reading H) τ m (buckets rs) ∧
      (m₀.plan.samples reading H).length = H.countP (·.2)) ?_ ?_ ?_ ?_ ?_ ?_ hm hs h
  · intro _
    have hsampled : Sampled m₀.plan m₀.grid.size reading [] s m₀ [] :=
      ⟨rfl, rfl, by simp [hm.current], fun _ => ⟨by simp, hm.samples, .nil⟩⟩
    refine ⟨?_, rfl⟩
    rcases start_cases m₀ cs₀ s with hstart | hstart <;> rw [hstart]
    · exact hsampled.activate _ (hm.placed hs)
    · exact hsampled
  · exact fun _ _ _ _ _ _ _ h hle _ => ⟨h.1.wait hle, h.2⟩
  · intro H cs m rs slot ht h hs hlast
    rw [buckets_append]
    exact ⟨h.1.roll cs ht.toPlaced hrule hs, h.2⟩
  · exact fun _ _ _ _ due _ h _ => ⟨h.1.deactivate due, h.2⟩
  · intro H cs m rs ev ht h hlast
    obtain ⟨new, hnew, hsamples, hlength⟩ := h.1.see cs ev (ms.judge ev) ht hrule hlast
    rw [MetricPlan.samples_concat, ← hsamples, buckets_append]
    refine ⟨hnew, ?_⟩
    rw [List.length_append, hlength, h.2, List.countP_append, List.countP_singleton]
  · intro H cs τ m rs h
    rw [buckets_append, buckets_flushPending, List.append_nil]
    exact ⟨h.1.flushPending, h.2⟩

theorem Sampled.shutdown (cs : Conditions) {p : MetricPlan} {size : Int} {A : List Sample} {bs : List Record.Bucket}
    (h : Sampled p size reading A τ m bs) (ht : OnTime τ m) (hrule : p.rule = .sampled what reading) {t : Int}
    (hle : τ ≤ t) (hlast : t ≤ last) :
    ∃ b, (∀ a ∈ A, a.time < b) ∧
      Filed reading size A b (bs ++ buckets (m.shutdown cs t).records) := by
  obtain ⟨hon, hsampled⟩ := advance_course cs
    (P := fun τ m rs => Sampled p size reading A τ m (bs ++ buckets rs))
    (fun _ _ _ _ _ h hle _ => h.wait hle)
    (fun m rs slot ht h hs _ => by
      rw [buckets_append, ← List.append_assoc]
      exact h.roll cs ht.toPlaced hrule hs)
    (fun _ _ due _ h _ => h.deactivate due) ht
    (show Sampled p size reading A τ m (bs ++ buckets []) by simpa [buckets] using h) hle hlast
  simp only [Metric.shutdown, Emitting.andThen_records, buckets_append, buckets_flushPending, List.append_nil,
    List.nil_append] at hsampled ⊢
  generalize (m.advance cs t false).state = n at hon hsampled ⊢
  cases hs : n.grid.current with
  | none =>
      obtain ⟨hA, -, hfiled⟩ := hsampled.closed hs
      exact ⟨t, hA, by simpa [closeAt, hs, buckets] using hfiled⟩
  | some slot =>
      have hfiled := hsampled.file hon.toPlaced hrule hs (max t slot.start)
      rw [buckets_closeAt n hs, Metric.settle, Sampled.onIntervals_of_sampled (hsampled.plan ▸ hrule),
        ← List.append_assoc]
      exact ⟨slot.stop, (hsampled.opened slot hs).1, hfiled⟩

end Metric

end EventMetrics
